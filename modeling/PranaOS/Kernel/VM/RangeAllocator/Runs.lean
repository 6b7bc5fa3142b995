import PranaOS.Kernel.VM.RangeAllocator

/-!
# Runs of the range allocator

An allocator over a total range is used by any sequence of allocations and deallocations, where
only ranges that are currently allocated are given back. `FreeListOk` is what its callers rely on:
the list of available ranges is sorted, disjoint and merged, and it covers exactly the addresses
of the total range that are not allocated.

The property is kept by every step that meets `StepOk` (`freeListOk_of_meets`). It is lost when
`deallocate` compares the range with an entry that ends `2 ^ 31` bytes or more away from it
(`userspace_list_unsorted`).
-/

namespace Kernel.RangeAllocator

open AK Tiling Transition Option

/-- The operations on an allocator. Arguments are 32-bit values. -/
inductive Op where
  | allocateAnywhere (size alignment : UInt32)
  | allocateSpecific (base size : UInt32)
  | allocateRandomized (size alignment : UInt32) (random : ℕ → UInt32)
  | deallocate (range : Range)

/-- An allocator together with the ranges that have been handed out and not been given back. -/
structure State where
  allocator : RangeAllocator
  allocated : List Range
deriving DecidableEq, Repr

/-- The state before the first operation. -/
def State.init (base size : UInt32) : State where
  allocator := initializeWithRange base.toNat size.toNat
  allocated := []

variable (s : State)

/-- Record the result of an allocation. -/
def State.record : Option Range × RangeAllocator → State
  | (none, allocator) => { s with allocator }
  | (some range, allocator) => { allocator, allocated := range :: s.allocated }

/-- One operation. Only ranges that are currently allocated may be given back. -/
def step : Op → Option State
  | .allocateAnywhere size alignment =>
    (s.allocator.allocateAnywhere size.toNat alignment.toNat).map s.record
  | .allocateSpecific base size =>
    (s.allocator.allocateSpecific base.toNat size.toNat).map s.record
  | .allocateRandomized size alignment random =>
    (s.allocator.allocateRandomized size.toNat alignment.toNat random).map s.record
  | .deallocate range =>
    if range ∈ s.allocated then
      (s.allocator.deallocate range).map fun allocator =>
        { allocator, allocated := s.allocated.erase range }
    else none

/-- The free list is sorted, disjoint, merged and inside the total range, and it covers the
addresses of the total range that are not allocated. -/
structure FreeListOk (s : State) : Prop where
  sorted : s.allocator.availableRanges.Pairwise fun a b => a.base < b.base
  disjoint : s.allocator.availableRanges.Pairwise fun a b => Disjoint a.addresses b.addresses
  merged : s.allocator.availableRanges.Pairwise fun a b =>
    a.base + a.size ≠ b.base ∧ b.base + b.size ≠ a.base
  inside : ∀ entry ∈ s.allocator.availableRanges, s.allocator.totalRange.Encloses entry
  free : {x | ∃ entry ∈ s.allocator.availableRanges, x ∈ entry.addresses} =
    s.allocator.totalRange.addresses \ {x | ∃ range ∈ s.allocated, x ∈ range.addresses}

/-- The condition under which a step keeps the free list in order. Allocations meet it unless
their alignment is zero; a deallocation meets it if no entry that the binary search should look at
ends `2 ^ 31` bytes or more below the range, or more than `2 ^ 31` bytes above. -/
def StepOk : Op → Prop
  | .allocateAnywhere size alignment => s.allocator.ZeroAlignmentOk size.toNat alignment.toNat
  | .allocateSpecific _ _ => True
  | .allocateRandomized size alignment _ => s.allocator.ZeroAlignmentOk size.toNat alignment.toNat
  | .deallocate range => SearchNear s.allocator.availableRanges range

/-- What one step relies on: available and allocated ranges tile the total range. -/
structure Invariant (s : State) : Prop where
  valid : s.allocator.Valid
  separated : Separated s.allocator.availableRanges
  allocated : ∀ range ∈ s.allocated, s.allocator.totalRange.Encloses range ∧ 0 < range.size
  tiles : Tiles Range.addresses (s.allocator.availableRanges ++ s.allocated)
    s.allocator.totalRange.addresses

variable {s s' : State} {range : Range}

theorem Invariant.init {base size : UInt32} (h : base.toNat + size.toNat ≤ 2 ^ 32) :
    Invariant (State.init base size) where
  valid := .initializeWithRange h size.toNat_lt
  separated := List.pairwise_singleton _ _
  allocated := by simp [State.init]
  tiles := tiles_singleton

theorem Invariant.freeListOk (h : Invariant s) : FreeListOk s where
  sorted := h.separated.imp fun hlt => by omega
  disjoint := by
    rw [pairwise_disjoint_iff]
    intro x
    have := h.tiles.le_one x
    rw [multiplicity_append] at this
    omega
  merged := h.separated.imp fun hlt => by omega
  inside := h.valid.inside
  free := by
    ext x
    have hle := h.tiles.le_one x
    simp only [Set.mem_sdiff, Set.mem_ofPred_eq, ← multiplicity_pos, h.tiles.mem_iff,
      multiplicity_append] at hle ⊢
    omega

/-- An allocation keeps the invariant: it cuts a range out of an available one, or it changes
nothing. -/
theorem Invariant.record (h : Invariant s) {P : Range → Prop}
    {result : Option Range × RangeAllocator} (hresult : AllocatesRange s.allocator P result) :
    Invariant (s.record result) := by
  rcases hresult with rfl | ⟨range, allocator, rfl, -, htakes⟩
  · exact h
  · have htotal := htakes.totalRange
    refine ⟨htakes.valid h.valid, htakes.separated h.separated, fun r hr => ?_, ?_⟩
    · simp only [State.record, List.mem_cons] at hr ⊢
      rw [htotal]
      rcases hr with rfl | hr
      · obtain ⟨-, hpos, front, entry, back, hsplit, hencloses, -⟩ := htakes
        exact ⟨(h.valid.inside entry (by simp [hsplit])).trans hencloses, hpos⟩
      · exact h.allocated r hr
    · simp only [State.record]
      rw [htotal]
      refine h.tiles.congr fun x => ?_
      have hcut := htakes.multiplicity x
      simp only [multiplicity_append, multiplicity_cons, multiplicity_nil] at hcut ⊢
      omega

/-- An allocated range overlaps no available range. -/
theorem Invariant.le_or_le (h : Invariant s) (hrange : range ∈ s.allocated) {entry : Range}
    (hentry : entry ∈ s.allocator.availableRanges) :
    entry.base + entry.size ≤ range.base ∨ range.base + range.size ≤ entry.base := by
  obtain ⟨hencloses, hpos⟩ := h.allocated range hrange
  have htotal : 0 < s.allocator.totalRange.size := by
    have := hencloses.1
    have := hencloses.2
    omega
  have hdisjoint := pairwise_disjoint_iff.mpr h.tiles.le_one
  rw [List.pairwise_append] at hdisjoint
  exact Range.le_or_le_of_disjoint (h.valid.positive htotal entry hentry) hpos
    (hdisjoint.2.2 entry hentry range hrange)

/-- A deallocation keeps the invariant if the binary search looks at near entries only. -/
theorem Invariant.deallocate (h : Invariant s) (hrange : range ∈ s.allocated)
    (hnear : SearchNear s.allocator.availableRanges range) {allocator : RangeAllocator}
    (hdeallocate : s.allocator.deallocate range = some allocator) :
    Invariant { allocator, allocated := s.allocated.erase range } := by
  obtain ⟨hencloses, hpos⟩ := h.allocated range hrange
  have hbounded := h.valid.bounded
  have hbase : range.base < 2 ^ 32 := by
    have := hencloses.2
    omega
  have hsize : range.size < 2 ^ 32 := by
    have := hencloses.1
    have := hencloses.2
    have := h.valid.size_lt
    omega
  have htotal := (deallocate_eq_some h.valid hbase hsize hdeallocate).2.2.1
  refine ⟨deallocate_valid h.valid hbase hsize hdeallocate,
    deallocate_separated h.valid h.separated hbase hsize hnear
      (fun entry hentry => h.le_or_le hrange hentry) hdeallocate, fun r hr => ?_, ?_⟩
  · rw [htotal]
    exact h.allocated r (List.mem_of_mem_erase hr)
  · rw [htotal]
    refine h.tiles.congr fun x => ?_
    have hback := multiplicity_deallocate h.valid hbase hsize hdeallocate x
    have herase : multiplicity Range.addresses s.allocated x =
        multiplicity Range.addresses (range :: s.allocated.erase range) x :=
      multiplicity_perm (List.perm_cons_erase hrange)
    simp only [multiplicity_append, multiplicity_cons, multiplicity_nil] at hback herase ⊢
    omega

/-- One step that meets the condition keeps the invariant. -/
theorem Invariant.step {op : Op} (h : Invariant s) (hok : StepOk s op)
    (hstep : step s op = some s') : Invariant s' := by
  cases op with
  | allocateAnywhere size alignment =>
    obtain ⟨result, hresult, rfl⟩ := map_eq_some_iff.mp hstep
    exact h.record (allocateAnywhere_allocatesRange h.valid hok hresult)
  | allocateSpecific base size =>
    obtain ⟨result, hresult, rfl⟩ := map_eq_some_iff.mp hstep
    exact h.record (allocateSpecific_allocatesRange h.valid base.toNat_lt size.toNat_lt hresult)
  | allocateRandomized size alignment random =>
    obtain ⟨result, hresult, rfl⟩ := map_eq_some_iff.mp hstep
    exact h.record (allocateRandomized_allocatesRange h.valid size.toNat_lt hok hresult)
  | deallocate range =>
    simp only [RangeAllocator.step] at hstep
    split at hstep
    next hrange =>
      obtain ⟨allocator, hdeallocate, rfl⟩ := map_eq_some_iff.mp hstep
      exact h.deallocate hrange hok hdeallocate
    next => simp at hstep

/-- **Free list invariant.** In every run whose steps meet `StepOk`, from any total range inside
the 32-bit address space, the free list is sorted, disjoint, merged and inside the total range, and
covers exactly the addresses that are not allocated. -/
theorem freeListOk_of_meets (base size : UInt32) (htotal : base.toNat + size.toNat ≤ 2 ^ 32)
    (ops : List Op) (s : State) (hok : Meets step StepOk (State.init base size) ops)
    (hrun : run step (State.init base size) ops = some s) : FreeListOk s :=
  (run_induction (I := Invariant) (fun _ _ _ h hok hstep => h.step hok hstep) (Invariant.init htotal)
    hok hrun).freeListOk

/-- The run theorem on a page taken from and given back to a small total range. -/
theorem freeListOk_of_meets_small :
    FreeListOk ⟨⟨[⟨0x1000, 0x2000⟩], ⟨0x1000, 0x2000⟩⟩, []⟩ := by
  refine freeListOk_of_meets 0x1000 0x2000 (by decide)
    [.allocateSpecific 0x1000 0x1000, .deallocate ⟨0x1000, 0x1000⟩] _ ?_ (by decide +kernel)
  refine ⟨trivial, fun s hs => ?_⟩
  obtain rfl : s = ⟨⟨[⟨0x2000, 0x1000⟩], ⟨0x1000, 0x2000⟩⟩, [⟨0x1000, 0x1000⟩]⟩ := by
    refine some.inj (hs.symm.trans ?_)
    decide +kernel
  refine ⟨?_, fun _ _ => trivial⟩
  rw [StepOk, SearchNear]
  decide +kernel

/-- On the userspace range `[0x00800000, 0xbe000000)`, three steps leave the list unsorted: the
lowest page and the page at `0xb0000000` are allocated, and the lowest page is given back. Its
distance to the end of the middle entry, `0xb0000000`, does not fit an `int`, so the search goes to
the upper half of the list. -/
theorem userspace_list_unsorted :
    ∃ s, run step (State.init 0x00800000 0xbd800000)
        [.allocateSpecific 0x00800000 0x1000, .allocateSpecific 0xb0000000 0x1000,
          .deallocate ⟨0x00800000, 0x1000⟩] = some s ∧ ¬ FreeListOk s := by
  refine ⟨⟨⟨[⟨0x00801000, 0xaf7ff000⟩, ⟨0x00800000, 0x1000⟩, ⟨0xb0001000, 0x0dfff000⟩],
    ⟨0x00800000, 0xbd800000⟩⟩, [⟨0xb0000000, 0x1000⟩]⟩, by decide +kernel, fun h => ?_⟩
  have := h.sorted
  revert this
  decide +kernel

end Kernel.RangeAllocator
