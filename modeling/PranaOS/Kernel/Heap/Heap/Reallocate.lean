import PranaOS.Kernel.Heap.Heap

/-!
# `Kernel/Heap/Heap.h`: `reallocate` and the sizes of blocks and heaps

How many bytes a block has for its owner, what `reallocate` does if it fails and what it reads, and
how much memory a heap needs for a request.

* `allocate` adds the header and rounds up in 32 bits, and finds a block of no chunks for a request that
  overflows;
* `reallocate` compares and copies the size of a block with its header, where it should be without;
* `reallocate` deallocates the old block also if it has not got a new one;
* `calculate_memory_for_bytes` counts a bit of the bitmap for a chunk, and `calculate_chunks` a byte.
-/

namespace Kernel.Heap

open AK Transition Kernel.Heap.System Option Nat

variable (params : HeapParameters)

/-- `old_size` of `reallocate`: the size of the block, with its header. -/
def oldSize (memory : Memory) (ptr : ℕ) : ℕ :=
  allocationSizeInChunks memory ptr * params.chunkSize % 2 ^ 32

/-- The number of bytes that `reallocate` copies. -/
def copySize (memory : Memory) (ptr newSize : ℕ) : ℕ := min (oldSize params memory ptr) newSize

/-- The old block is copied to the new one, if there is one. -/
def copyBlock (ptr count : ℕ) : Option ℕ × Heap × Memory → ℕ × Option ℕ × Heap × Memory
  | (none, self, memory) => (0, none, self, memory)
  | (some newPtr, self, memory) => (count, some newPtr, self, memory.copy newPtr ptr count)

/-- `reallocate`, from the allocation of the new block to the copy. Returns the number of bytes that
are copied, and so read from `ptr` on. -/
def reallocateCopy (self : Heap) (memory : Memory) (ptr newSize : ℕ) :
    Option (ℕ × Option ℕ × Heap × Memory) :=
  (self.allocate params memory newSize).map (copyBlock ptr (copySize params memory ptr newSize))

/-- `reallocate`, on the heap that the block is in. -/
def reallocate (self : Heap) (memory : Memory) (ptr : Option ℕ) (newSize : ℕ) :
    Option (Option ℕ × Heap × Memory) :=
  match ptr with
  | none => self.allocate params memory newSize
  | some ptr => do
    let a := ptr - headerSize
    let heapEnd := self.chunks + self.totalChunks * params.chunkSize
    verify (self.chunks ≤ a ∧ ptr < heapEnd)
    verify ((a + allocationSizeInChunks memory ptr * params.chunkSize) % 2 ^ 32 ≤ heapEnd)
    if oldSize params memory ptr = newSize then return (some ptr, self, memory)
    else
      let (_, newPtr, self, memory) ← self.reallocateCopy params memory ptr newSize
      let (self, memory) ← self.deallocate params memory ptr
      return (newPtr, self, memory)

variable {params} {self self' : Heap} {memory memory' : Memory} {live : List ℕ} {ptr newSize : ℕ}

/-! ## What the functions do in any case -/

variable (h : Inv params self memory live)

include h

/-- The size of a block does not overflow. -/
theorem Inv.oldSize_eq (hptr : ptr ∈ live) :
    oldSize params memory ptr = allocationSizeInChunks memory ptr * params.chunkSize := by
  have hle := Nat.mul_le_mul_right params.chunkSize ((Nat.le_add_left _ _).trans (h.inside hptr))
  have hlt := h.size_lt
  rw [Nat.mul_add, Nat.mul_one] at hlt
  exact mod_eq_of_lt (by omega)

theorem Inv.totalChunks_pos (hptr : ptr ∈ live) :
    0 < self.totalChunks :=
  (h.allocationSizeInChunks_pos hptr).trans_le ((Nat.le_add_left _ _).trans (h.inside hptr))

/-- The checks of `reallocate` only fail for a pointer at the end of the heap. -/
theorem Inv.reallocate_eq (newSize : ℕ) (hptr : ptr ∈ live)
    (hlt : ptr < self.chunks + self.totalChunks * params.chunkSize) :
    self.reallocate params memory (some ptr) newSize =
      if oldSize params memory ptr = newSize then some (some ptr, self, memory)
      else do
        let (_, newPtr, self, memory) ← self.reallocateCopy params memory ptr newSize
        let (self, memory) ← self.deallocate params memory ptr
        return (newPtr, self, memory) := by
  have hptrEq := h.ptr_eq hptr
  have hend := h.end_block_le hptr
  have hdata := h.data_eq
  have hmod : (ptr - headerSize + allocationSizeInChunks memory ptr * params.chunkSize) % 2 ^ 32 ≤
      self.chunks + self.totalChunks * params.chunkSize :=
    (mod_le _ _).trans (by omega)
  simp only [reallocate, verify, show self.chunks ≤ ptr - headerSize by omega, hlt, and_self, if_true,
    hmod, bind_eq_bind, bind_some, pure_def]

omit h

/-- If there is no room for it, `reallocate` deallocates the block. -/
theorem reallocateCopy_of_noRoom (h : NoRoom params self memory newSize) :
    self.reallocateCopy params memory ptr newSize = some (0, none, self, memory) := by
  rw [reallocateCopy, allocate_of_noRoom h]
  rfl

/-- If there is room, `allocate` returns a block, of no chunks for some requests that overflow. -/
theorem Inv.allocate_of_room (h : Inv params self memory live)
    (hheader : headerSize ≤ params.chunkSize) (htotal : 0 < self.totalChunks)
    (hroom : ¬ NoRoom params self memory newSize) :
    ∃ newPtr memory', self.allocate params memory newSize = some (some newPtr,
        { self with allocatedChunks := self.allocatedChunks + chunksNeeded params newSize }, memory') ∧
      allocationSizeInChunks memory' newPtr = chunksNeeded params newSize ∧
      ((chunksNeeded params newSize = 0 ∧ newPtr = self.chunks + headerSize) ∨
        Inv params { self with allocatedChunks := self.allocatedChunks + chunksNeeded params newSize }
          memory' (newPtr :: live)) := by
  by_cases hzero : chunksNeeded params newSize = 0
  · -- The first chunk is found, allocated or not, and its first bytes are overwritten.
    rw [hzero]
    have hallocated : self.allocatedChunks % 2 ^ 32 = self.allocatedChunks :=
      mod_eq_of_lt (h.allocatedChunks_le.trans_lt h.totalChunks_lt)
    obtain ⟨memory₁, hmemory₁⟩ : ∃ memory₁,
      memory₁ = memory.store32 self.chunks (BitVec.ofNat 32 0) := ⟨_, rfl⟩
    have hset : self.bitmap.setRange true true memory₁ 0 0 = some memory₁ := by
      simp [BitmapView.setRange, verify, h.bitmap_eq, htotal]
    obtain ⟨memory₂, hmemory₂⟩ : ∃ memory₂, memory₂ = scrub params.scrubByteAlloc memory₁
      (self.chunks + headerSize) ((0 + 2 ^ 32 - headerSize) % 2 ^ 32) := ⟨_, rfl⟩
    have hfind : self.findChunks memory 0 = some (some 0) := self.bitmap.findFirstFit_zero memory
    refine ⟨self.chunks + headerSize, memory₂, ?_, ?_, Or.inl ⟨rfl, rfl⟩⟩
    · simp only [Heap.allocate, hzero, Nat.not_lt_zero, if_false, hfind, Heap.allocateAt,
        Nat.zero_mul, Nat.add_zero, ← hmemory₁, hset, bind_eq_bind, bind_some,
        pure_def, hallocated, hmemory₂]
    · have hload : memory₂.load32 self.chunks = memory₁.load32 self.chunks := by
        refine Memory.load32_congr fun a _ ha => ?_
        rw [hmemory₂]
        exact scrub_of_outside (Or.inl ha)
      rw [allocationSizeInChunks, Nat.add_sub_cancel, hload, hmemory₁, Memory.load32_store32]
      rfl
  · have hle := hheader.trans (Nat.le_mul_of_pos_left _ (Nat.pos_of_ne_zero hzero))
    obtain ⟨newPtr, -, memory', -, hallocate, hI, hcount, -⟩ :=
      (h.allocate hle).resolve_left fun hnone => hroom hnone.1
    exact ⟨newPtr, memory', hallocate, hcount, Or.inr hI⟩

/-- `deallocate` only writes the bitmap and the block, as long as its header says. -/
theorem deallocate_frame (h : self.deallocate params memory ptr = some (self', memory'))
    (hheader : headerSize ≤ ptr) (hdata : ptr ≤ self.bitmap.data) {a : ℕ} (ha : a < self.bitmap.data)
    (hblock : a < ptr - headerSize ∨
      ptr - headerSize + allocationSizeInChunks memory ptr * params.chunkSize ≤ a) :
    memory' a = memory a := by
  simp only [Heap.deallocate, bind_eq_bind, bind_eq_some_iff] at h
  obtain ⟨-, -, -, -, -, -, -, -, memory₁, hset, -, -, -, ⟨⟩⟩ := h
  have hsame : allocationSizeInChunks memory₁ ptr = allocationSizeInChunks memory ptr := by
    rw [allocationSizeInChunks, allocationSizeInChunks, Memory.load32_congr]
    intro b _ hb
    apply BitmapView.setRange_outside hset
    simp only [headerSize] at hheader hb
    omega
  rw [scrub_of_outside (by rw [hsame]; omega), BitmapView.setRange_outside hset ha]

/-! ## Failure of `reallocate` -/

/-- The property: if `reallocate` returns `nullptr` the heap is as before, and if it copies the block it
reads nothing behind its end. -/
structure FailureAtomic (params : HeapParameters) (heap : Heap) (memory : Memory) (ptr newSize : ℕ) :
    Prop where
  unchanged : ∀ heap' memory', heap.reallocate params memory (some ptr) newSize =
    some (none, heap', memory') → heap' = heap ∧ memory' = memory
  copied : ptr < heap.chunks + heap.totalChunks * params.chunkSize →
    oldSize params memory ptr ≠ newSize → ∀ count newPtr heap' memory',
      heap.reallocateCopy params memory ptr newSize = some (count, some newPtr, heap', memory') →
        headerSize + count ≤ allocationSizeInChunks memory ptr * params.chunkSize

/-- **Failure of `reallocate`.** For every heap, every pointer that is allocated and every new size: the
property holds exactly if the new size is the size of the block with its header, or there is room for
it and the block has as many bytes behind its header (or if the pointer is at the end of the heap, where
the assertion fails). -/
theorem failureAtomic_iff (h : Inv params self memory live) (hheader : headerSize ≤ params.chunkSize)
    (hptr : ptr ∈ live) :
    FailureAtomic params self memory ptr newSize ↔
      self.chunks + self.totalChunks * params.chunkSize ≤ ptr ∨
      allocationSizeInChunks memory ptr * params.chunkSize = newSize ∨
      (¬ NoRoom params self memory newSize ∧
        headerSize + newSize ≤ allocationSizeInChunks memory ptr * params.chunkSize) := by
  have hold := h.oldSize_eq hptr
  have htotal := h.totalChunks_pos hptr
  constructor
  · intro hatomic
    by_contra hnot
    simp only [not_or, not_and, not_le] at hnot
    obtain ⟨hlt, hne, hroom⟩ := hnot
    rw [← hold] at hne
    have hreallocate := h.reallocate_eq newSize hptr hlt
    rw [if_neg hne] at hreallocate
    by_cases hnoRoom : NoRoom params self memory newSize
    · -- The block is deallocated.
      obtain ⟨memory', hdeallocate, -, -⟩ := h.deallocate hptr hlt
      rw [reallocateCopy_of_noRoom hnoRoom] at hreallocate
      simp only [bind_eq_bind, bind_some, hdeallocate, pure_def] at hreallocate
      have hheap := congrArg Heap.allocatedChunks (hatomic.unchanged _ _ hreallocate).1
      have hpos := h.allocationSizeInChunks_pos hptr
      have hle := h.allocationSizeInChunks_le hptr
      simp only at hheap
      omega
    · obtain ⟨first, memory', hallocate, -⟩ := h.allocate_of_room hheader htotal hnoRoom
      have hcopied := hatomic.copied hlt hne _ _ _ _ (by rw [reallocateCopy, hallocate]; rfl)
      have := hroom hnoRoom
      rw [copySize, hold] at hcopied
      simp only [headerSize] at this hcopied
      omega
  · intro hcond
    -- What is copied goes to a block that is there.
    have hcopy (hlt : ptr < self.chunks + self.totalChunks * params.chunkSize)
        (hne : oldSize params memory ptr ≠ newSize) : headerSize + newSize ≤
          allocationSizeInChunks memory ptr * params.chunkSize ∧ ∃ newPtr self' memory',
        self.reallocateCopy params memory ptr newSize =
          some (copySize params memory ptr newSize, some newPtr, self', memory') := by
      rw [hold] at hne
      obtain ⟨hroom, hle⟩ := (hcond.resolve_left (not_le.mpr hlt)).resolve_left hne
      obtain ⟨newPtr, memory₁, hallocate, -⟩ := h.allocate_of_room hheader htotal hroom
      exact ⟨hle, newPtr, _, _, by rw [reallocateCopy, hallocate]; rfl⟩
    refine ⟨?_, ?_⟩
    · -- It does not return `nullptr`.
      intro self' memory' hreallocate
      by_cases hlt : ptr < self.chunks + self.totalChunks * params.chunkSize
      · rw [h.reallocate_eq newSize hptr hlt] at hreallocate
        split at hreallocate
        next => simp at hreallocate
        next hne =>
          obtain ⟨-, newPtr, self₁, memory₁, hcopy⟩ := hcopy hlt hne
          simp [hcopy, bind_eq_some_iff] at hreallocate
      · simp [reallocate, verify, hlt] at hreallocate
    · intro hlt hne count newPtr self' memory' hcount
      obtain ⟨hle, newPtr, self₁, memory₁, hcopy⟩ := hcopy hlt hne
      obtain rfl := congrArg Prod.fst (some.inj (hcopy.symm.trans hcount))
      rw [copySize]
      omega

/-- The heap of `kmalloc` over two chunks, of which one is allocated. -/
def oneAllocated : System :=
  (run (System.step kmallocHeap) (System.clearHeap kmallocHeap 66) [.allocate 28]).getD
    (System.clearHeap kmallocHeap 66)

theorem runInv_oneAllocated : System.RunInv kmallocHeap oneAllocated := by
  have hfresh : System.Fresh kmallocHeap (System.clearHeap kmallocHeap 66) :=
    ⟨⟨4096, 66, rfl, by decide, by decide⟩, by decide, rfl⟩
  obtain ⟨s, hstep, hI⟩ := System.step_spec (System.runInv_of_fresh hfresh) (.allocate 28)
    ⟨by decide, by simp⟩
  have hrun : run (System.step kmallocHeap) (System.clearHeap kmallocHeap 66) [.allocate 28] =
      some s := run_cons_eq_some.mpr ⟨s, hstep, run_nil⟩
  rw [oneAllocated, hrun]
  exact hI

/-- A block whose new size is its old one with its header stays where it is. -/
theorem failureAtomic_iff_same_size :
    FailureAtomic kmallocHeap oneAllocated.heap oneAllocated.memory 4100 32 :=
  (failureAtomic_iff runInv_oneAllocated.toInv (by decide) (by decide +kernel)).mpr
    (Or.inr (Or.inl (by decide +kernel)))

/-- If the block does not fit in the heap with its new size, `reallocate` returns `nullptr` and the
block is not allocated any more. If it gets a bigger block, it reads four bytes behind the old one. -/
theorem reallocate_failure_frees_block :
    (oneAllocated.heap.reallocate kmallocHeap oneAllocated.memory (some 4100) 60).map
        (fun result => (result.1, oneAllocated.heap.allocatedChunks, result.2.1.allocatedChunks)) =
      some (none, 1, 0) ∧
    (oneAllocated.heap.reallocateCopy kmallocHeap oneAllocated.memory 4100 28).map
        (fun result => (result.1, result.2.1)) = some (28, some 4132) ∧
    ((System.clearHeap kmallocHeap 99).step kmallocHeap (.allocate 28)).bind
        (fun s => (s.heap.reallocateCopy kmallocHeap s.memory 4100 40).map
          fun result => (result.1, result.2.1)) = some (32, some 4132) := by
  refine ⟨?_, ?_, ?_⟩ <;> decide +kernel

/-! ## The capacity of blocks -/

/-- The property: `reallocate`, or `allocate` if the pointer is null, returns, and a block that it
returns has as many bytes behind its header as were asked for. -/
def HasCapacity (params : HeapParameters) (self : Heap) (memory : Memory) (ptr : Option ℕ)
    (newSize : ℕ) : Prop :=
  ∃ result self' memory', self.reallocate params memory ptr newSize = some (result, self', memory') ∧
    ∀ newPtr, result = some newPtr →
      newSize + headerSize ≤ allocationSizeInChunks memory' newPtr * params.chunkSize

section

variable (h : Inv params self memory live)

include h

/-- A request that overflows gets too few chunks. -/
theorem Inv.chunksNeeded_mul_lt (hsize : newSize < 2 ^ 32)
    (hoverflow : 2 ^ 32 < newSize + headerSize + params.chunkSize)
    (hroom : ¬ NoRoom params self memory newSize) :
    chunksNeeded params newSize * params.chunkSize < newSize + headerSize := by
  have hlt := params.chunkSize_lt
  by_cases hwrap : 2 ^ 32 ≤ newSize + headerSize
  · -- There are not as many chunks in the address space.
    have hfree : chunksNeeded params newSize ≤ self.totalChunks := by
      have hle := h.allocatedChunks_le
      have hnot := (not_or.mp hroom).1
      rw [freeChunks] at hnot
      omega
    have hmul := Nat.mul_le_mul_right params.chunkSize hfree
    have htotal := h.size_lt
    rw [Nat.mul_add, Nat.mul_one] at htotal
    omega
  · have hmod : (newSize + headerSize + params.chunkSize - 1) % 2 ^ 32 =
        newSize + headerSize + params.chunkSize - 1 - 2 ^ 32 := by omega
    rw [chunksNeeded, mod_eq_of_lt (show newSize + headerSize < 2 ^ 32 by omega), hmod]
    have hdiv := div_mul_le_self (newSize + headerSize + params.chunkSize - 1 - 2 ^ 32)
      params.chunkSize
    omega

/-- The header of the new block is not touched again, even if the copy overwrites other blocks. -/
theorem Inv.header_of_reallocate (hheader : headerSize ≤ params.chunkSize) (hptr : ptr ∈ live)
    {newPtr allocatedChunks count : ℕ} {memory₁ : Memory}
    (hnew : (allocationSizeInChunks memory₁ newPtr = 0 ∧ newPtr = self.chunks + headerSize) ∨
      Inv params { self with allocatedChunks := allocatedChunks } memory₁ (newPtr :: live))
    (hdeallocate : Heap.deallocate params { self with allocatedChunks := allocatedChunks }
      (memory₁.copy newPtr ptr count) ptr = some (self', memory')) :
    allocationSizeInChunks memory' newPtr = allocationSizeInChunks memory₁ newPtr := by
  have hptrEq := h.ptr_eq hptr
  have hend := h.end_block_le hptr
  have hle := h.headerSize_le hptr
  -- The copy starts behind the header.
  have hcopy : ∀ a, a < newPtr → memory₁.copy newPtr ptr count a = memory₁ a := fun a ha =>
    Memory.copy_of_outside (Or.inl ha)
  have hheaderSame (hle : ptr ≤ newPtr) :
      allocationSizeInChunks (memory₁.copy newPtr ptr count) ptr = allocationSizeInChunks memory₁ ptr :=
    allocationSizeInChunks_congr hptrEq fun b _ hb => hcopy b (by omega)
  -- The old block starts behind the header, or ends before it.
  have hblock : headerSize ≤ newPtr ∧ newPtr ≤ self.bitmap.data ∧ (newPtr ≤ ptr - headerSize ∨
      ptr - headerSize + allocationSizeInChunks (memory₁.copy newPtr ptr count) ptr *
        params.chunkSize ≤ newPtr - headerSize) := by
    rcases hnew with ⟨hzero, hfirst⟩ | hI
    · refine ⟨by omega, by omega, ?_⟩
      rcases Nat.eq_zero_or_pos (self.firstChunk params ptr) with heq | hpos
      · have hsame : ptr = newPtr := by rw [hptrEq, heq, hfirst, Nat.zero_mul, Nat.add_zero]
        right
        rw [hheaderSame hsame.le, hsame, hzero]
        omega
      · have := Nat.le_mul_of_pos_left params.chunkSize hpos
        omega
    · have hmem := List.mem_cons_of_mem newPtr hptr
      have hne : ptr ≠ newPtr := fun heq => (List.nodup_cons.mp hI.nodup).1 (heq ▸ hptr)
      have hnewEq := hI.ptr_eq List.mem_cons_self
      have hnewEnd := hI.end_block_le List.mem_cons_self
      have hnewLe := hI.headerSize_le List.mem_cons_self
      have hdisjoint := mul_chunkSize_le_of_disjoint params (hI.allocationSizeInChunks_pos hmem)
        (hI.allocationSizeInChunks_pos List.mem_cons_self)
        (hI.disjoint_of_ne hmem List.mem_cons_self hne)
      simp only [firstChunk] at hptrEq hend hnewEq hnewEnd hdisjoint
      refine ⟨by omega, by omega, ?_⟩
      rcases hdisjoint with hbefore | hbehind
      · right
        rw [hheaderSame (by omega)]
        omega
      · left
        omega
  obtain ⟨hnewHeader, hnewData, hblock⟩ := hblock
  refine congrArg BitVec.toNat (Memory.load32_congr fun a hlow hhigh => ?_)
  have hhigh' : a < newPtr := by simp only [headerSize] at hhigh hnewHeader; omega
  rw [← hcopy a hhigh']
  exact deallocate_frame hdeallocate (by omega) (show ptr ≤ self.bitmap.data by omega)
    (show a < self.bitmap.data by omega) (by omega)

/-- A heap without chunks panics if it finds a block of no chunks. -/
theorem Inv.allocate_of_totalChunks_eq_zero
    (htotal : self.totalChunks = 0) (hroom : ¬ NoRoom params self memory newSize) :
    self.allocate params memory newSize = none := by
  obtain ⟨hfree, -⟩ := not_or.mp hroom
  have hle := h.allocatedChunks_le
  have hcount : chunksNeeded params newSize = 0 := by
    rw [freeChunks] at hfree
    omega
  have hfind : self.findChunks memory 0 = some (some 0) := self.bitmap.findFirstFit_zero memory
  rw [Heap.allocate, if_neg hfree, hcount]
  simp [hfind, Heap.allocateAt, BitmapView.setRange, verify, h.bitmap_eq, htotal]

/-- `allocate` returns no block that is too small exactly if the request does not overflow or finds no
room. -/
theorem Inv.hasCapacity_allocate_iff
    (hheader : headerSize ≤ params.chunkSize) (hsize : newSize < 2 ^ 32) :
    HasCapacity params self memory none newSize ↔
      newSize + headerSize + params.chunkSize ≤ 2 ^ 32 ∨ NoRoom params self memory newSize := by
  constructor
  · rintro ⟨result, self', memory', hreallocate, hcapacity⟩
    by_contra hnot
    obtain ⟨hoverflow, hroom⟩ := not_or.mp hnot
    have hreallocate : self.allocate params memory newSize = some (result, self', memory') :=
      hreallocate
    rcases Nat.eq_zero_or_pos self.totalChunks with htotal | htotal
    · rw [h.allocate_of_totalChunks_eq_zero htotal hroom] at hreallocate
      cases hreallocate
    · obtain ⟨first, memory₁, hallocate, hcount, -⟩ := h.allocate_of_room hheader htotal hroom
      obtain ⟨rfl, -, rfl⟩ : _ = result ∧ _ = self' ∧ _ = memory' := by
        simpa only [hallocate, some.injEq, Prod.mk.injEq] using hreallocate
      have hle := hcapacity _ rfl
      have hlt := h.chunksNeeded_mul_lt hsize (by omega) hroom
      rw [hcount] at hle
      omega
  · rintro (hfits | hroom)
    · have hle := le_chunksNeeded_mul hfits
      rcases h.allocate ((Nat.le_add_left _ _).trans hle) with ⟨-, hallocate⟩ |
        ⟨ptr, first, memory', -, hallocate, -, hcount, -⟩
      · exact ⟨none, self, memory, hallocate, by simp⟩
      · refine ⟨some ptr, _, memory', hallocate, fun newPtr hnewPtr => ?_⟩
        rwa [← some.inj hnewPtr, hcount]
    · exact ⟨none, self, memory, allocate_of_noRoom hroom, by simp⟩

/-- A request that finds no room deallocates the block and returns `nullptr`. -/
theorem Inv.hasCapacity_of_noRoom (hptr : ptr ∈ live)
    (hlt : ptr < self.chunks + self.totalChunks * params.chunkSize)
    (hne : oldSize params memory ptr ≠ newSize) (hroom : NoRoom params self memory newSize) :
    HasCapacity params self memory (some ptr) newSize := by
  obtain ⟨memory', hdeallocate, -, -⟩ := h.deallocate hptr hlt
  have hreallocate := h.reallocate_eq newSize hptr hlt
  rw [if_neg hne, reallocateCopy_of_noRoom hroom] at hreallocate
  simp only [bind_eq_bind, bind_some, hdeallocate, pure_def] at hreallocate
  exact ⟨none, _, memory', hreallocate, by simp⟩

/-- A block that is big enough is still so after the old block has been copied and deallocated. -/
theorem Inv.hasCapacity_of_fits (hheader : headerSize ≤ params.chunkSize) (hptr : ptr ∈ live)
    (hlt : ptr < self.chunks + self.totalChunks * params.chunkSize)
    (hne : oldSize params memory ptr ≠ newSize)
    (hfits : newSize + headerSize + params.chunkSize ≤ 2 ^ 32) :
    HasCapacity params self memory (some ptr) newSize := by
  have hle := le_chunksNeeded_mul hfits
  rcases h.allocate ((Nat.le_add_left _ _).trans hle) with ⟨hroom, -⟩ |
    ⟨newPtr, first, memory₁, -, hallocate, hI₁, hcount, -⟩
  · exact h.hasCapacity_of_noRoom hptr hlt hne hroom
  · -- The copy is inside the new block.
    have hnewPtr := hI₁.ptr_eq List.mem_cons_self
    have hI₂ : Inv params
        { self with allocatedChunks := self.allocatedChunks + chunksNeeded params newSize }
        (memory₁.copy newPtr ptr (copySize params memory ptr newSize)) (newPtr :: live) := by
      refine hI₁.write List.mem_cons_self fun a ha => Memory.copy_of_outside ?_
      rw [hcount] at ha
      rw [copySize]
      omega
    obtain ⟨memory₃, hdeallocate, -, -⟩ := hI₂.deallocate (List.mem_cons_of_mem newPtr hptr) hlt
    have hreallocate := h.reallocate_eq newSize hptr hlt
    rw [if_neg hne, reallocateCopy, hallocate] at hreallocate
    simp only [map_some, copyBlock, bind_eq_bind, bind_some, hdeallocate, pure_def] at hreallocate
    refine ⟨some newPtr, _, memory₃, hreallocate, fun p hp => ?_⟩
    rw [← some.inj hp, h.header_of_reallocate hheader hptr (Or.inr hI₁) hdeallocate, hcount]
    exact hle

/-- **The capacity of blocks.** For every heap, every request and every pointer that is null or
allocated: `reallocate` returns no block that is too small exactly if the request is not the size of the
old block with its header, and does not overflow or finds no room (and if the old block is not only a
header at the end of the heap, where the assertion fails). -/
theorem hasCapacity_iff (hheader : headerSize ≤ params.chunkSize)
    (ptr : Option ℕ) (hptr : ∀ p, ptr = some p → p ∈ live) (hsize : newSize < 2 ^ 32) :
    HasCapacity params self memory ptr newSize ↔
      (∀ p, ptr = some p → p < self.chunks + self.totalChunks * params.chunkSize ∧
        allocationSizeInChunks memory p * params.chunkSize ≠ newSize) ∧
      (newSize + headerSize + params.chunkSize ≤ 2 ^ 32 ∨ NoRoom params self memory newSize) := by
  cases ptr with
  | none =>
    rw [h.hasCapacity_allocate_iff hheader hsize]
    simp
  | some ptr =>
    have hlive := hptr ptr rfl
    have hold := h.oldSize_eq hlive
    constructor
    · rintro ⟨result, self', memory', hreallocate, hcapacity⟩
      have hlt : ptr < self.chunks + self.totalChunks * params.chunkSize := by
        by_contra hnot
        simp [reallocate, verify, hnot] at hreallocate
      rw [h.reallocate_eq newSize hlive hlt] at hreallocate
      split at hreallocate
      next heq =>
        -- The block has not enough bytes behind its header.
        obtain ⟨rfl, -, rfl⟩ : _ = result ∧ _ = self' ∧ _ = memory' := by
          simpa only [some.injEq, Prod.mk.injEq] using hreallocate
        have hle := hcapacity _ rfl
        simp only [headerSize] at hle
        omega
      next hne =>
        refine ⟨fun p hp => ?_, ?_⟩
        · obtain rfl := some.inj hp
          exact ⟨hlt, hold ▸ hne⟩
        · by_contra hnot
          obtain ⟨hoverflow, hroom⟩ := not_or.mp hnot
          obtain ⟨first, memory₁, hallocate, hcount, hor⟩ :=
            h.allocate_of_room hheader (h.totalChunks_pos hlive) hroom
          rw [reallocateCopy, hallocate] at hreallocate
          simp only [map_some, copyBlock, bind_eq_bind, bind_some,
            bind_eq_some_iff, Prod.exists] at hreallocate
          obtain ⟨self₂, memory₂, hdeallocate, ⟨⟩⟩ := hreallocate
          have hle := hcapacity _ rfl
          rw [h.header_of_reallocate hheader hlive (hcount ▸ hor) hdeallocate, hcount] at hle
          have hless := h.chunksNeeded_mul_lt hsize (by omega) hroom
          omega
    · rintro ⟨hcond, hor⟩
      obtain ⟨hlt, hne⟩ := hcond ptr rfl
      rw [← hold] at hne
      rcases hor with hfits | hroom
      · exact h.hasCapacity_of_fits hheader hlive hlt hne hfits
      · exact h.hasCapacity_of_noRoom hlive hlt hne hroom

end

/-- A request that does not overflow. -/
theorem hasCapacity_iff_grow : HasCapacity kmallocHeap oneAllocated.heap oneAllocated.memory
    (some 4100) 20 :=
  (hasCapacity_iff runInv_oneAllocated.toInv (by decide) (some 4100)
    (by simp only [some.injEq]; rintro p rfl; decide +kernel) (by decide)).mpr
    ⟨by simp only [some.injEq]; rintro p rfl; decide +kernel, Or.inl (by decide)⟩

/-- A request for almost the whole address space returns a block of no chunks, and a request for 32
bytes returns the old block, which has 28. -/
theorem block_smaller_than_request :
    (oneAllocated.heap.allocate kmallocHeap oneAllocated.memory 0xffffffe0).map
        (fun result => (result.1, allocationSizeInChunks result.2.2 4100)) = some (some 4100, 0) ∧
    (oneAllocated.heap.reallocate kmallocHeap oneAllocated.memory (some 4100) 32).map
        (fun result => (result.1, allocationSizeInChunks result.2.2 4100)) = some (some 4100, 1) := by
  refine ⟨?_, ?_⟩ <;> decide +kernel

/-! ## The size of a heap for a request -/

section Sizing

variable {bytes : ℕ}

/-- The number of chunks that `allocate` needs, if nothing overflows. -/
theorem chunksNeeded_eq (h : bytes + headerSize + params.chunkSize ≤ 2 ^ 32) :
    chunksNeeded params bytes = (bytes + headerSize + params.chunkSize - 1) / params.chunkSize := by
  have hpos := params.chunkSize_pos
  rw [chunksNeeded, mod_eq_of_lt (show bytes + headerSize < 2 ^ 32 by omega),
    mod_eq_of_lt (by omega)]

/-- `calculate_memory_for_bytes` counts the same chunks. -/
theorem calculateMemoryForBytes_eq (h : bytes + headerSize + params.chunkSize ≤ 2 ^ 32)
    (hmemory : chunksNeeded params bytes * params.chunkSize + (chunksNeeded params bytes + 7) / 8 <
      2 ^ 32) :
    calculateMemoryForBytes params bytes =
      chunksNeeded params bytes * params.chunkSize + (chunksNeeded params bytes + 7) / 8 := by
  have hneeded : (headerSize + bytes + params.chunkSize - 1) % 2 ^ 32 / params.chunkSize =
      chunksNeeded params bytes := by
    rw [chunksNeeded_eq h, mod_eq_of_lt (by omega), Nat.add_comm headerSize]
  simp only [calculateMemoryForBytes, hneeded]
  exact mod_eq_of_lt hmemory

/-- A request needs one chunk exactly if it fits in one with its header. -/
theorem chunksNeeded_le_one_iff (h : bytes + headerSize + params.chunkSize ≤ 2 ^ 32) :
    chunksNeeded params bytes ≤ 1 ↔ bytes + headerSize ≤ params.chunkSize := by
  have hpos := params.chunkSize_pos
  rw [chunksNeeded_eq h, ← Nat.lt_succ_iff, Nat.div_lt_iff_lt_mul hpos]
  omega

/-- A chunk is counted with a bit in one formula and with a byte in the other, so that the chunks
suffice only for one. -/
theorem le_calculateChunks_iff (count : ℕ) :
    count ≤ calculateChunks params (count * params.chunkSize + (count + 7) / 8) ↔ count ≤ 1 := by
  rw [calculateChunks, Nat.le_div_iff_mul_le (succ_pos _), mul_succ]
  omega

/-- One chunk that is not allocated is found. -/
theorem findChunks_one {memory : Memory} (hsize : self.bitmap.size = 1)
    (hclear : self.bitmap.bit memory 0 = false) : self.findChunks memory 1 = some (some 0) := by
  simp [findChunks, bestFitThreshold, BitmapView.findFirstFit, BitmapView.findNextRangeOfUnsetBits,
    hsize, BitmapView.scanBuckets, BitmapView.scanTrailingBits, BitmapView.get, verify, hclear,
    BitmapView.startOfFreeChunks]

/-- **The size of a heap.** For every chunk size and every request for which nothing overflows: a fresh
heap over the memory that `calculate_memory_for_bytes` asks for can serve the request, and has as many
chunks as it needs, exactly if the request fits in one chunk with its header. -/
theorem allocate_calculateMemoryForBytes_iff (s : System) (start : ℕ) (hfresh : s.Fresh params)
    (hcreate : create params start (calculateMemoryForBytes params bytes) = some s.heap)
    (h : bytes + headerSize + params.chunkSize ≤ 2 ^ 32)
    (hmemory : chunksNeeded params bytes * params.chunkSize + (chunksNeeded params bytes + 7) / 8 <
      2 ^ 32) :
    ((∃ ptr heap memory, s.heap.allocate params s.memory bytes = some (some ptr, heap, memory)) ↔
      bytes + headerSize ≤ params.chunkSize) ∧
    (chunksNeeded params bytes ≤ calculateChunks params (calculateMemoryForBytes params bytes) ↔
      bytes + headerSize ≤ params.chunkSize) := by
  have hI := (System.runInv_of_fresh hfresh).toInv
  rw [create_eq, some.injEq] at hcreate
  have htotal : s.heap.totalChunks =
      calculateChunks params (calculateMemoryForBytes params bytes) := by rw [← hcreate]
  have hallocated : s.heap.allocatedChunks = 0 := by rw [← hcreate]
  have hchunks : chunksNeeded params bytes ≤ s.heap.totalChunks ↔
      bytes + headerSize ≤ params.chunkSize := by
    rw [htotal, calculateMemoryForBytes_eq h hmemory, le_calculateChunks_iff,
      chunksNeeded_le_one_iff h]
  have hfree : s.heap.freeChunks = s.heap.totalChunks := by
    have := hI.totalChunks_lt
    rw [freeChunks]
    omega
  refine ⟨⟨?_, ?_⟩, htotal ▸ hchunks⟩
  · rintro ⟨ptr, heap, memory, hallocate⟩
    by_contra hnot
    have hnoRoom : NoRoom params s.heap s.memory bytes :=
      Or.inl (by rw [hfree]; exact not_le.mp (mt hchunks.mp hnot))
    rw [allocate_of_noRoom hnoRoom] at hallocate
    cases hallocate
  · intro hone
    -- One chunk is needed, and the heap has one.
    have hheader := (Nat.le_add_left _ _).trans (le_chunksNeeded_mul h)
    have hneeded : chunksNeeded params bytes = 1 := by
      have hle := (chunksNeeded_le_one_iff h).mpr hone
      have hpos := pos_of_headerSize_le hheader
      omega
    have hsize : s.heap.totalChunks = 1 := by
      rw [htotal, calculateMemoryForBytes_eq h hmemory, hneeded, calculateChunks, Nat.one_mul]
      exact Nat.div_self (succ_pos _)
    have hfind : s.heap.findChunks s.memory 1 = some (some 0) :=
      findChunks_one (hI.size_eq.trans hsize) (hfresh.clear 0 (by omega))
    rcases hI.allocate hheader with ⟨hnoRoom, -⟩ | ⟨ptr, -, memory', -, hallocate, -⟩
    · rcases hnoRoom with hless | hnone
      · omega
      · rw [hneeded, hfind] at hnone
        cases hnone
    · exact ⟨ptr, _, memory', hallocate⟩

/-- 28 bytes fit in a chunk with their header. -/
theorem allocate_calculateMemoryForBytes_iff_one_chunk :
    ∃ ptr heap memory, (System.clearHeap kmallocHeap 33).heap.allocate kmallocHeap
      (System.clearHeap kmallocHeap 33).memory 28 = some (some ptr, heap, memory) :=
  (allocate_calculateMemoryForBytes_iff (System.clearHeap kmallocHeap 33) 4096
    ⟨⟨4096, 33, rfl, by decide, by decide⟩, by decide, rfl⟩ (by decide) (by decide)
    (by decide)).1.mpr (by decide)

/-- For 29 bytes, memory for two chunks with one byte of bitmap is calculated, in which a heap has one
chunk. -/
theorem request_of_two_chunks_fails :
    calculateMemoryForBytes kmallocHeap 29 = 65 ∧ calculateChunks kmallocHeap 65 = 1 ∧
    chunksNeeded kmallocHeap 29 = 2 ∧
    ((System.clearHeap kmallocHeap 65).heap.allocate kmallocHeap
      (System.clearHeap kmallocHeap 65).memory 29).map (·.1) = some none := by
  refine ⟨by decide, by decide, by decide, by decide +kernel⟩

end Sizing

end Kernel.Heap
