import PranaOS.Kernel.VM.PhysicalRegion
import PranaOS.ToMathlib.Run

/-!
# Runs of a physical region

A run takes single and contiguous pages from a region and returns pages that are handed out. In
every state that is reached, the pages handed out are distinct and inside the region, and the
bitmap accounts for them and for the pages in the return queue, as long as contiguous pages are
taken only when the pages that the rounding of `find_and_allocate_contiguous_range` selects are
free (`regionOk_iff_meets`). The function checks only that the range found is as long as the number
of pages, and then rounds its start up.
-/

namespace Kernel

open AK Transition Option

namespace PhysicalRegion

/-- The calls. An alignment is a power of two pages; the random numbers can be anything. -/
inductive Op where
  | takeFreePage (random : UInt8)
  | takeContiguousFreePages (count : UInt32) (alignmentLog : Fin 20)
  | returnPage (page : ℕ) (random : UInt8)

/-- A region together with the pages that are handed out. -/
structure State where
  region : PhysicalRegion
  taken : List ℕ

/-- `physical_alignment`. -/
def physicalAlignment (alignmentLog : Fin 20) : ℕ := pageSize * 2 ^ alignmentLog.val

/-- One call that completes. Only pages that are handed out are returned. -/
def step (s : State) : Op → Option State
  | .takeFreePage random =>
    (s.region.takeFreePage random).map fun result => ⟨result.2, result.1.toList ++ s.taken⟩
  | .takeContiguousFreePages count alignmentLog =>
    (s.region.takeContiguousFreePages count.toNat (physicalAlignment alignmentLog)).map
      fun result => ⟨result.2, result.1 ++ s.taken⟩
  | .returnPage page random =>
    if page ∈ s.taken then
      (s.region.returnPage page random).map fun region => ⟨region, s.taken.erase page⟩
    else none

/-- The pages handed out are distinct and inside the region, and the set bits are as many as `m_used`
and as the pages handed out or in the return queue. -/
structure RegionOk (s : State) : Prop where
  nodup : s.taken.Nodup
  inside : ∀ page ∈ s.taken, s.region.lower ≤ page ∧
    page + pageSize ≤ s.region.lower + s.region.pages * pageSize
  used_eq : s.region.used = (s.region.bitmap.setBits s.region.memory).card
  card_eq : (s.region.bitmap.setBits s.region.memory).card =
    s.taken.length + s.region.recentlyReturned.length

/-- The condition under which a call is handled correctly. -/
def StepOk (s : State) : Op → Prop
  | .takeContiguousFreePages count alignmentLog =>
    s.region.ContiguousOk count.toNat (2 ^ alignmentLog.val)
  | _ => True

variable {s s' : State} {op : Op}

theorem Tracks.regionOk (h : s.region.Tracks s.taken) : RegionOk s where
  nodup := by
    have hnodup := (s.region.bitmap.setBits s.region.memory).nodup.map
      (@address_injective s.region)
    rw [h.pages_eq, Multiset.coe_nodup] at hnodup
    exact hnodup.of_append_left
  inside page hpage := by
    obtain ⟨i, -, hi, rfl⟩ := h.exists_index (List.mem_append_left _ hpage)
    exact ⟨Nat.le_add_right _ _, address_add_le hi⟩
  used_eq := h.used_eq
  card_eq := h.card_eq

/-- A call that meets its condition keeps track of the pages. -/
theorem step_tracks (hs : s.region.Tracks s.taken) (hok : StepOk s op) (h : step s op = some s') :
    s'.region.Tracks s'.taken := by
  cases op with
  | takeFreePage random =>
    obtain ⟨⟨page, region⟩, htake, rfl⟩ := map_eq_some_iff.mp h
    exact (hs.takeFreePage htake).1
  | takeContiguousFreePages count alignmentLog =>
    obtain ⟨⟨pages, region⟩, htake, rfl⟩ := map_eq_some_iff.mp h
    exact (hs.takeContiguousFreePages_of_ok alignmentLog.isLt hok htake).1
  | returnPage page random =>
    obtain ⟨hpage, h⟩ := ite_none_right_eq_some.mp h
    obtain ⟨region, hreturn, rfl⟩ := map_eq_some_iff.mp h
    exact (hs.returnPage hpage hreturn).1

/-- A call that does not meet its condition sets the bits of pages that were not free. -/
theorem stepOk_of_regionOk (hs : s.region.Tracks s.taken) (h : step s op = some s')
    (hok : RegionOk s') : StepOk s op := by
  cases op with
  | takeFreePage => trivial
  | returnPage => trivial
  | takeContiguousFreePages count alignmentLog =>
    obtain ⟨⟨pages, region⟩, htake, rfl⟩ := map_eq_some_iff.mp h
    obtain ⟨first, memory, freeHint, -, -, -, -, rfl, hbits, hiff⟩ :=
      hs.takeContiguousFreePages alignmentLog.isLt htake
    refine hiff.mpr ?_
    have hused := hok.used_eq
    rw [hbits, hs.used_eq] at hused
    rw [← Finset.card_union_eq_card_add_card, ← hused, Nat.card_Ico, Nat.add_sub_cancel_left]

/-- The pages that a call for contiguous pages returns in a state: they follow each other, the
first is aligned, and all are inside the region. -/
def ContiguousPages (s : State) (count alignment : ℕ) (pages : List ℕ) : Prop :=
  ∃ first, pages = (List.range count).map (fun index => first + index * pageSize) ∧
    alignment ∣ first ∧ s.region.lower ≤ first ∧
    first + count * pageSize ≤ s.region.lower + s.region.pages * pageSize

theorem Tracks.contiguousPages (h : s.region.Tracks s.taken) {count : ℕ} {alignmentLog : Fin 20}
    {pages : List ℕ} {region : PhysicalRegion}
    (htake : s.region.takeContiguousFreePages count (physicalAlignment alignmentLog) =
      some (pages, region)) : ContiguousPages s count (physicalAlignment alignmentLog) pages := by
  obtain ⟨first, -, -, hlast, -, rfl, hdvd, -⟩ := h.takeContiguousFreePages alignmentLog.isLt htake
  refine ⟨s.region.address first, ?_, hdvd, Nat.le_add_right _ _, ?_⟩
  · refine List.map_congr_left fun index _ => ?_
    rw [address, address, Nat.add_mul, Nat.add_assoc]
  · have hmul := Nat.mul_le_mul_right pageSize hlast
    rw [Nat.add_mul] at hmul
    rw [address]
    omega

/-- **Physical regions.** Along every run of a region that completes, the property holds in every
state reached exactly if contiguous pages are taken only when the pages selected are free. In every
state reached by such a run, contiguous pages are contiguous, aligned and inside the region. -/
theorem regionOk_iff_meets {lower upper data : ℕ} {region : PhysicalRegion}
    (hlower : pageSize ∣ lower) (hle : lower ≤ upper) (hupper : upper < 2 ^ 32)
    (hregion : (create lower upper).finalizeCapacity data = some region) {ops : List Op} {t : State}
    (hrun : run step ⟨region, []⟩ ops = some t) :
    ((∀ made, made <+: ops → ∀ u, run step ⟨region, []⟩ made = some u → RegionOk u) ↔
      Meets step StepOk ⟨region, []⟩ ops) ∧
    (Meets step StepOk ⟨region, []⟩ ops → ∀ (count : UInt32) alignmentLog pages region',
      t.region.takeContiguousFreePages count.toNat (physicalAlignment alignmentLog) =
        some (pages, region') →
      ContiguousPages t count.toNat (physicalAlignment alignmentLog) pages) := by
  have hinit := tracks_finalizeCapacity hlower hle hupper hregion
  constructor
  · exact forall_prefix_iff_meets (I := fun s => s.region.Tracks s.taken)
      (fun s hs => hs.regionOk) (fun s op s' hs hok h => step_tracks hs hok h)
      (fun s op s' hs h hok => stepOk_of_regionOk hs h hok) hinit hrun
  · intro hmeets count alignmentLog pages region' htake
    have ht : t.region.Tracks t.taken := run_induction (I := fun s => s.region.Tracks s.taken)
      (fun s op s' hs hok h => step_tracks hs hok h) hinit hmeets hrun
    exact ht.contiguousPages htake

/-- In a region of eight pages a page and then two contiguous ones are taken, and the first is
returned. -/
theorem regionOk_iff_meets_eight_pages :
    ∃ region t, (create 0 0x8000).finalizeCapacity 0xc0100004 = some region ∧
      run step ⟨region, []⟩ [.takeFreePage 0, .takeContiguousFreePages 2 0, .returnPage 0 0] =
        some t ∧ t.taken = [0x1000, 0x2000] ∧ RegionOk t := by
  have heval : (((create 0 0x8000).finalizeCapacity 0xc0100004).bind fun region =>
      (run step ⟨region, []⟩ [.takeFreePage 0, .takeContiguousFreePages 2 0,
        .returnPage 0 0]).map State.taken) = some [0x1000, 0x2000] := by
    decide +kernel
  obtain ⟨region, hregion, heval⟩ := bind_eq_some_iff.mp heval
  obtain ⟨t, hrun, htaken⟩ := map_eq_some_iff.mp heval
  refine ⟨region, t, hregion, hrun, htaken, ?_⟩
  refine (regionOk_iff_meets (by decide) (by decide) (by decide) hregion hrun).1.mpr ?_ _
    List.prefix_rfl t hrun
  exact ⟨trivial, fun _ _ => ⟨contiguousOk_one 2, fun _ _ => ⟨trivial, fun _ _ => trivial⟩⟩⟩

/-- In a region of six pages, two pages aligned to four are taken three times. The third time the
only two free pages are 2 and 3, and the start is rounded up to page 4, which is taken. -/
theorem pages_taken_twice :
    ∃ region s, (create 0 0x6000).finalizeCapacity 0xc0100004 = some region ∧
      run step ⟨region, []⟩ (List.replicate 3 (.takeContiguousFreePages 2 2)) = some s ∧
      s.taken = [0x4000, 0x5000, 0x4000, 0x5000, 0x0000, 0x1000] ∧ ¬RegionOk s := by
  have heval : (((create 0 0x6000).finalizeCapacity 0xc0100004).bind fun region =>
      (run step ⟨region, []⟩ (List.replicate 3 (.takeContiguousFreePages 2 2))).map State.taken) =
        some [0x4000, 0x5000, 0x4000, 0x5000, 0x0000, 0x1000] := by
    decide +kernel
  obtain ⟨region, hregion, heval⟩ := bind_eq_some_iff.mp heval
  obtain ⟨s, hrun, htaken⟩ := map_eq_some_iff.mp heval
  refine ⟨region, s, hregion, hrun, htaken, fun hok => ?_⟩
  have hnodup := hok.nodup
  rw [htaken] at hnodup
  exact absurd hnodup (by decide)

end PhysicalRegion

end Kernel
