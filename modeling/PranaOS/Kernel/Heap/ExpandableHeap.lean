import PranaOS.Kernel.Heap.Heap

/-!
# `Kernel/Heap/Heap.h`: `ExpandableHeap`

A main heap, and a list of subheaps over blocks of memory that are added while the kernel runs. A block
starts with the `SubHeap` structure, and the heap is in the rest of it. The list is sorted by address.
When the last allocation of a subheap is freed, the subheap is unlinked and `remove_memory` is asked to
take the block back; if it rejects this, the subheap is added again.

`add_subheap` takes the size of a whole block, but what is remembered for a subheap, and given to
`add_subheap` after a rejection, is the size without the `SubHeap` structure. A subheap is smaller after
every rejection.
-/

namespace Kernel

open AK Transition List Option

/-- `Heap::contains`. -/
def Heap.contains (params : HeapParameters) (self : Heap) (ptr : ℕ) : Bool :=
  decide (self.chunks ≤ ptr - Heap.headerSize ∧
    ptr < self.chunks + self.totalChunks * params.chunkSize)

/-- `ExpandableHeap::SubHeap`, with its address. The main heap is not in its block: its address is that
of its memory. -/
structure SubHeap where
  address : ℕ
  heap : Heap
  /-- `memory_size`, the size of the memory of `heap`. -/
  memorySize : ℕ
deriving DecidableEq

/-- `ExpandableHeap`. -/
structure ExpandableHeap where
  /-- `m_heaps`, and the subheaps linked behind it. -/
  heaps : List SubHeap
  /-- `m_expanding`. -/
  expanding : Bool

namespace ExpandableHeap

/-- `sizeof(SubHeap)`: five words of the heap, `next` and `memory_size`. -/
def sizeofSubHeap : ℕ := 28

variable (params : HeapParameters)

/-- The walk of `add_subheap` to the first subheap with a higher address. -/
def insertSubheap (newHeap : SubHeap) : List SubHeap → List SubHeap
  | [] => [newHeap]
  | nextHeap :: rest =>
    if newHeap.heap.chunks < nextHeap.heap.chunks then newHeap :: nextHeap :: rest
    else nextHeap :: insertSubheap newHeap rest

/-- The subheap is linked behind the main heap. -/
def link (newHeap : SubHeap) : List SubHeap → List SubHeap
  | [] => [newHeap]
  | main :: subheaps => main :: insertSubheap newHeap subheaps

variable (self : ExpandableHeap)

/-- `add_subheap`. -/
def addSubheap (memory memorySize : ℕ) : Option ExpandableHeap := do
  verify (memorySize > sizeofSubHeap)
  let memorySize := memorySize - sizeofSubHeap
  let heap ← Heap.create params (memory + sizeofSubHeap) memorySize
  return { self with heaps := link ⟨memory, heap, memorySize⟩ self.heaps }

/-- One pass of `allocate` over the heaps. -/
def allocateFrom (memory : Memory) (size : ℕ) :
    List SubHeap → Option (Option ℕ × List SubHeap × Memory)
  | [] => some (none, [], memory)
  | subheap :: rest => do
    let (result, heap, memory) ← subheap.heap.allocate params memory size
    match result with
    | some ptr => return (some ptr, { subheap with heap := heap } :: rest, memory)
    | none =>
      let (result, rest, memory) ← allocateFrom memory size rest
      return (result, { subheap with heap := heap } :: rest, memory)

/-- The first heap that contains the pointer, with those before and behind it. -/
def findHeap (ptr : ℕ) : List SubHeap → Option (List SubHeap × SubHeap × List SubHeap)
  | [] => none
  | subheap :: rest =>
    if subheap.heap.contains params ptr then some ([], subheap, rest)
    else (findHeap ptr rest).map fun (before, found, behind) => (subheap :: before, found, behind)

/-- `deallocate`, up to the question to `remove_memory`: the subheap that was unlinked, if any. -/
def deallocateBlock (memory : Memory) (ptr : ℕ) :
    Option (Option SubHeap × ExpandableHeap × Memory) := do
  let (before, subheap, behind) ← findHeap params ptr self.heaps
  let (heap, memory) ← subheap.heap.deallocate params memory ptr
  if heap.allocatedChunks = 0 ∧ before ≠ [] ∧ self.expanding = false then
    return (some subheap, { self with heaps := before ++ behind }, memory)
  else
    return (none, { self with heaps := before ++ { subheap with heap := heap } :: behind }, memory)

/-- `deallocate`, where `removed` is the answer of `remove_memory`. -/
def deallocate (memory : Memory) (ptr : ℕ) (removed : Bool) :
    Option (ExpandableHeap × Memory) := do
  let (unlinked, self, memory) ← self.deallocateBlock params memory ptr
  match unlinked with
  | none => return (self, memory)
  | some subheap =>
    if removed then return (self, memory)
    else
      let self ← self.addSubheap params subheap.address subheap.memorySize
      return (self, memory)

/-! ## Blocks of memory -/

end ExpandableHeap

namespace SubHeap

open ExpandableHeap

variable (subheap : SubHeap)

/-- The end of the block of memory. -/
def finish : ℕ := subheap.heap.chunks + subheap.memorySize

/-- The blocks of two heaps do not overlap. -/
def Apart (subheap other : SubHeap) : Prop :=
  subheap.finish ≤ other.address ∨ other.finish ≤ subheap.address

theorem Apart.symm {subheap other : SubHeap} (h : subheap.Apart other) : other.Apart subheap :=
  Or.symm h

/-- The block for which `add_subheap` was called. -/
def block : ℕ × ℕ := (subheap.address, subheap.memorySize + sizeofSubHeap)

/-- The heap is consistent with the pointers it contains, and it is the heap that is constructed over
its memory. -/
structure Inv (params : HeapParameters) (memory : Memory) (live : List ℕ) (subheap : SubHeap) :
    Prop where
  heap : Heap.Inv params subheap.heap memory (live.filter (subheap.heap.contains params))
  totalChunks : subheap.heap.totalChunks = Heap.calculateChunks params subheap.memorySize
  address_le : subheap.address ≤ subheap.heap.chunks

/-- The subheap without what is allocated. -/
def reset : SubHeap :=
  { subheap with heap := { subheap.heap with allocatedChunks := 0 } }

end SubHeap

theorem Heap.contains_iff {params : HeapParameters} {self : Heap} {ptr : ℕ} :
    self.contains params ptr = true ↔ self.chunks ≤ ptr - Heap.headerSize ∧
      ptr < self.chunks + self.totalChunks * params.chunkSize := by
  simp [Heap.contains]

namespace SubHeap

variable {params : HeapParameters} {memory memory' : Memory} {live live' : List ℕ}
  {subheap other : SubHeap} {ptr : ℕ}

/-- Where a heap is does not depend on what is allocated. -/
theorem contains_of_reset_eq (h : other.reset = subheap.reset) :
    other.heap.contains params = subheap.heap.contains params := by
  change other.reset.heap.contains params = subheap.reset.heap.contains params
  rw [h]

namespace Inv

section

variable (h : Inv params memory live subheap)

include h

/-- The bitmap ends before the end of the block. -/
theorem end_bitmap_le :
    subheap.heap.bitmap.data + subheap.heap.bitmap.sizeInBytes ≤ subheap.finish := by
  have hfits := Heap.calculateChunks_fits params subheap.memorySize
  rw [← h.totalChunks] at hfits
  rw [h.heap.bitmap_eq]
  simp only [BitmapView.sizeInBytes, finish]
  omega

/-- A pointer in a heap is in its block. -/
theorem mem_block (hptr : subheap.heap.contains params ptr) :
    subheap.address ≤ ptr ∧ ptr < subheap.finish := by
  obtain ⟨hlow, hhigh⟩ := Heap.contains_iff.mp hptr
  have hend := h.end_bitmap_le
  rw [h.heap.data_eq] at hend
  have := h.address_le
  omega

/-- A pointer is not in two blocks that do not overlap. -/
theorem not_contains_of_apart
    (hother : Inv params memory' live' other) (hapart : subheap.Apart other)
    (hptr : subheap.heap.contains params ptr) : other.heap.contains params ptr = false := by
  rw [Bool.eq_false_iff]
  intro hcontains
  have hin := h.mem_block hptr
  have hin' := hother.mem_block hcontains
  rcases hapart with hle | hle <;> omega

/-- A heap is not concerned by what happens in other blocks. -/
theorem frame {address finish : ℕ}
    (hapart : finish ≤ subheap.address ∨ subheap.finish ≤ address)
    (hsame : ∀ a, a < address ∨ finish ≤ a → memory' a = memory a)
    (hlive : live'.filter (subheap.heap.contains params) =
      live.filter (subheap.heap.contains params)) : Inv params memory' live' subheap := by
  refine ⟨?_, h.totalChunks, h.address_le⟩
  rw [hlive]
  refine h.heap.congr fun a hlow hhigh => hsame a ?_
  have := h.end_bitmap_le
  have := h.address_le
  omega

/-- A heap without allocated chunks has no pointers. -/
theorem filter_eq_nil (hzero : subheap.heap.allocatedChunks = 0) :
    live.filter (subheap.heap.contains params) = [] := by
  rw [eq_nil_iff_forall_not_mem]
  intro ptr hptr
  have hpos := h.heap.allocationSizeInChunks_pos hptr
  have hle := h.heap.allocationSizeInChunks_le hptr
  omega

end

end Inv

end SubHeap

/-- Allocating and deallocating a block writes in the memory of the heap only. -/
theorem Heap.Written.outside {params : HeapParameters} {self : Heap} {first count : ℕ}
    {value : Bool} {memory memory' : Memory}
    (h : Written params self first count value memory memory')
    (hdata : self.chunks + first * params.chunkSize + count * params.chunkSize ≤ self.bitmap.data)
    {a : ℕ} (ha : a < self.chunks ∨ self.bitmap.data + self.bitmap.sizeInBytes ≤ a) :
    memory' a = memory a :=
  h.frame a (by omega) (by omega)

namespace ExpandableHeap

/-! ## The list -/

section Lists

variable {params : HeapParameters} {newHeap : SubHeap} {heaps before behind : List SubHeap} {ptr : ℕ}

theorem insertSubheap_perm (newHeap : SubHeap) (heaps : List SubHeap) :
    (insertSubheap newHeap heaps).Perm (newHeap :: heaps) := by
  induction heaps with
  | nil => exact List.Perm.refl _
  | cons nextHeap rest ih =>
    unfold insertSubheap
    split
    · exact List.Perm.refl _
    · exact (ih.cons nextHeap).trans (List.Perm.swap newHeap nextHeap rest)

/-- The list stays sorted. -/
theorem insertSubheap_sorted (h : heaps.Pairwise fun s t => s.heap.chunks < t.heap.chunks)
    (hne : ∀ s ∈ heaps, s.heap.chunks ≠ newHeap.heap.chunks) :
    (insertSubheap newHeap heaps).Pairwise fun s t => s.heap.chunks < t.heap.chunks := by
  induction heaps with
  | nil => exact pairwise_singleton _ _
  | cons nextHeap rest ih =>
    obtain ⟨hnext, hrest⟩ := pairwise_cons.mp h
    unfold insertSubheap
    split
    next hlt =>
      refine pairwise_cons.mpr ⟨fun s hs => ?_, h⟩
      rcases mem_cons.mp hs with rfl | hs
      · exact hlt
      · exact hlt.trans (hnext s hs)
    next hge =>
      refine pairwise_cons.mpr ⟨fun s hs => ?_, ih hrest fun s hs =>
        hne s (mem_cons_of_mem _ hs)⟩
      rcases mem_cons.mp ((insertSubheap_perm newHeap rest).mem_iff.mp hs) with rfl | hs
      · have := hne nextHeap mem_cons_self
        omega
      · exact hnext s hs

theorem link_perm (newHeap : SubHeap) (heaps : List SubHeap) :
    (link newHeap heaps).Perm (newHeap :: heaps) := by
  cases heaps with
  | nil => exact List.Perm.refl _
  | cons main subheaps =>
    exact ((insertSubheap_perm newHeap subheaps).cons main).trans (List.Perm.swap newHeap main subheaps)

/-- What `findHeap` finds. -/
theorem findHeap_eq_some {subheap : SubHeap}
    (h : findHeap params ptr heaps = some (before, subheap, behind)) :
    heaps = before ++ subheap :: behind ∧ subheap.heap.contains params ptr = true := by
  induction heaps generalizing before with
  | nil => cases h
  | cons first rest ih =>
    unfold findHeap at h
    split at h
    next hcontains =>
      cases h
      exact ⟨rfl, hcontains⟩
    next =>
      obtain ⟨⟨before', found, behind'⟩, hfind, heq⟩ := map_eq_some_iff.mp h
      cases heq
      obtain ⟨rfl, hcontains⟩ := ih hfind
      exact ⟨rfl, hcontains⟩

/-- A heap that contains the pointer is found. -/
theorem exists_findHeap (h : ∃ subheap ∈ heaps, subheap.heap.contains params ptr = true) :
    ∃ before subheap behind, findHeap params ptr heaps = some (before, subheap, behind) := by
  induction heaps with
  | nil => simp at h
  | cons first rest ih =>
    unfold findHeap
    split
    next => exact ⟨_, _, _, rfl⟩
    next hnot =>
      rw [exists_mem_cons_iff] at h
      obtain ⟨before, subheap, behind, hfind⟩ := ih (h.resolve_left hnot)
      exact ⟨_, _, _, by rw [hfind]; rfl⟩

end Lists

end ExpandableHeap

/-! ## One heap -/

namespace SubHeap.Inv

open ExpandableHeap

variable {params : HeapParameters} {memory : Memory} {live : List ℕ} {subheap : SubHeap} {ptr : ℕ}

/-- A request returns `nullptr` and changes nothing, or a pointer that the heap contains. -/
theorem allocate (h : Inv params memory live subheap) {size : ℕ}
    (hsize : size + Heap.headerSize + params.chunkSize ≤ 2 ^ 32)
    (hzero : size = 0 → ¬ params.chunkSize ∣ Heap.headerSize) :
    subheap.heap.allocate params memory size = some (none, subheap.heap, memory) ∨
    ∃ ptr heap memory', subheap.heap.allocate params memory size = some (some ptr, heap, memory') ∧
      { subheap with heap := heap }.reset = subheap.reset ∧
      subheap.heap.contains params ptr = true ∧
      Inv params memory' (ptr :: live) { subheap with heap := heap } ∧
      ∀ a, a < subheap.address ∨ subheap.finish ≤ a → memory' a = memory a := by
  have hlt := Heap.System.headerSize_lt_chunksNeeded_mul hsize hzero
  rcases h.heap.allocate hlt.le with ⟨-, hallocate⟩ |
    ⟨ptr, first, memory', hptr, hallocate, hI, hcount, hw⟩
  · exact Or.inl hallocate
  · right
    have hcontains : subheap.heap.contains params ptr = true :=
      Heap.contains_iff.mpr ⟨by omega, hI.lt_end mem_cons_self (hcount ▸ hlt)⟩
    refine ⟨ptr, _, memory', hallocate, rfl, hcontains, ⟨?_, h.totalChunks, h.address_le⟩, ?_⟩
    · have hfilter : (ptr :: live).filter (subheap.heap.contains params) =
          ptr :: live.filter (subheap.heap.contains params) := filter_cons_of_pos hcontains
      rw [← hfilter] at hI
      exact hI
    · intro a ha
      have hdata := hI.end_block_le mem_cons_self
      rw [hcount, hptr, Heap.firstChunk_eq] at hdata
      have := h.end_bitmap_le
      have := h.address_le
      exact hw.outside hdata (by omega)

/-- A pointer that the heap contains is deallocated. -/
theorem deallocate (h : Inv params memory live subheap) (hnodup : live.Nodup) (hptr : ptr ∈ live)
    (hcontains : subheap.heap.contains params ptr = true) :
    ∃ heap memory', subheap.heap.deallocate params memory ptr = some (heap, memory') ∧
      { subheap with heap := heap }.reset = subheap.reset ∧
      heap.allocatedChunks = subheap.heap.allocatedChunks - Heap.allocationSizeInChunks memory ptr ∧
      Heap.allocationSizeInChunks memory ptr ≤ subheap.heap.allocatedChunks ∧
      Inv params memory' (live.erase ptr) { subheap with heap := heap } ∧
      ∀ a, a < subheap.address ∨ subheap.finish ≤ a → memory' a = memory a := by
  have hmem : ptr ∈ live.filter (subheap.heap.contains params) := mem_filter.mpr ⟨hptr, hcontains⟩
  obtain ⟨memory', hdeallocate, hI, hw⟩ := h.heap.deallocate hmem (Heap.contains_iff.mp hcontains).2
  refine ⟨_, memory', hdeallocate, rfl, rfl, h.heap.allocationSizeInChunks_le hmem,
    ⟨?_, h.totalChunks, h.address_le⟩, ?_⟩
  · have hfilter : (live.erase ptr).filter (subheap.heap.contains params) =
        (live.filter (subheap.heap.contains params)).erase ptr := by
      rw [hnodup.erase_eq_filter, (hnodup.filter _).erase_eq_filter, List.filter_filter,
        List.filter_filter]
      simp [Bool.and_comm]
    rw [← hfilter] at hI
    exact hI
  · intro a ha
    have := h.end_bitmap_le
    have := h.address_le
    exact hw.outside (h.heap.end_block_le hmem) (by omega)

end SubHeap.Inv

namespace ExpandableHeap

/-! ## Runs -/

/-- The heap, the memory, the pointers that are allocated, and the blocks that were added and not
removed, with their sizes. -/
structure System where
  self : ExpandableHeap
  memory : Memory
  live : List ℕ
  blocks : List (ℕ × ℕ)

/-- What can happen next. -/
inductive Event where
  /-- A pass of `allocate` over the heaps. -/
  | allocate (size : ℕ)
  /-- `deallocate`, with the answer of `remove_memory`. -/
  | deallocate (ptr : ℕ) (removed : Bool)
  | addSubheap (memory memorySize : ℕ)
  /-- `expand_memory` begins or ends to ask for memory. -/
  | setExpanding (expanding : Bool)
  /-- The owner of a block writes a byte of it. -/
  | write (ptr offset : ℕ) (byte : BitVec 8)

namespace System

variable (params : HeapParameters)

variable (s : System)

/-- A pass of `allocate`, with the pointer. -/
def allocatePass (size : ℕ) : Option (Option ℕ × System) := do
  let (result, heaps, memory) ← allocateFrom params s.memory size s.self.heaps
  return (result, { s with self.heaps := heaps, memory := memory, live := result.toList ++ s.live })

/-- The blocks after `deallocate`. -/
def blocksAfter (unlinked : Option SubHeap) (removed : Bool) : List (ℕ × ℕ) :=
  match unlinked with
  | none => s.blocks
  | some subheap => if removed then s.blocks.erase subheap.block else s.blocks

/-- One step. Only pointers that are allocated are deallocated and written to. -/
def step : Event → Option System
  | .allocate size => (s.allocatePass params size).map Prod.snd
  | .deallocate ptr removed =>
    if ptr ∈ s.live then do
      let (unlinked, _, _) ← s.self.deallocateBlock params s.memory ptr
      let (self, memory) ← s.self.deallocate params s.memory ptr removed
      return ⟨self, memory, s.live.erase ptr, s.blocksAfter unlinked removed⟩
    else some s
  | .addSubheap memory memorySize => do
    let self ← s.self.addSubheap params memory memorySize
    return { s with self := self, blocks := (memory, memorySize) :: s.blocks }
  | .setExpanding expanding => some { s with self.expanding := expanding }
  | .write ptr offset byte =>
    if ptr ∈ s.live ∧
        Heap.headerSize + offset < Heap.allocationSizeInChunks s.memory ptr * params.chunkSize then
      some { s with memory := s.memory.store (ptr + offset) byte }
    else some s

/-- `expand_memory`. What `add_memory` does to the heap is a list of events, which may depend on the
size and the state. -/
def expandMemory (addMemory : ℕ → System → List Event × Bool) (s : System) (size : ℕ) :
    Option (Bool × System) :=
  if s.self.expanding then some (false, s)
  else do
    let s ← s.step params (.setExpanding true)
    let (events, added) := addMemory size s
    let s ← run (step params) s events
    let s ← s.step params (.setExpanding false)
    return (added, s)

/-- The loop of `allocate`, with the number of expansions that are left. -/
def allocateLoop (addMemory : ℕ → System → List Event × Bool) (size : ℕ) :
    ℕ → System → Option (Option ℕ × System)
  | 0, s => s.allocatePass params size
  | attempts + 1, s => do
    let (result, s) ← s.allocatePass params size
    match result with
    | some ptr => return (some ptr, s)
    | none =>
      let (added, s) ← s.expandMemory params addMemory size
      if added then allocateLoop addMemory size attempts s else return (none, s)

/-- `allocate`. -/
def allocate (addMemory : ℕ → System → List Event × Bool) (s : System) (size : ℕ) :
    Option (Option ℕ × System) :=
  s.allocateLoop params addMemory size 2

variable {size : ℕ} {blocks : List (ℕ × ℕ)}

/-- What should hold of the heaps. The blocks of the subheaps are those that were added, with their
sizes, and every subheap has the chunks that fit in its memory. -/
structure SubheapsOk (s : System) : Prop where
  sorted : s.self.heaps.tail.Pairwise fun subheap other => subheap.heap.chunks < other.heap.chunks
  blocks : (s.self.heaps.tail.map SubHeap.block).Perm s.blocks
  totalChunks : ∀ subheap ∈ s.self.heaps.tail,
    subheap.heap.totalChunks = Heap.calculateChunks params subheap.memorySize
  live : ∀ ptr ∈ s.live, s.self.heaps.countP (fun subheap => subheap.heap.contains params ptr) = 1

/-- How the heaps are laid out, which does not depend on what is allocated. -/
@[mk_iff]
structure Layout (heaps : List SubHeap) (blocks : List (ℕ × ℕ)) : Prop where
  ne_nil : heaps ≠ []
  apart : heaps.Pairwise SubHeap.Apart
  sorted : heaps.tail.Pairwise fun subheap other => subheap.heap.chunks < other.heap.chunks
  chunks_eq : ∀ subheap ∈ heaps.tail, subheap.heap.chunks = subheap.address + sizeofSubHeap
  blocks : (heaps.tail.map SubHeap.block).Perm blocks

/-- The invariant. -/
structure Inv (s : System) : Prop where
  layout : Layout s.self.heaps s.blocks
  heaps : ∀ subheap ∈ s.self.heaps, subheap.Inv params s.memory s.live
  live : ∀ ptr ∈ s.live, ∃ subheap ∈ s.self.heaps, subheap.heap.contains params ptr = true
  nodup : s.live.Nodup

variable {params} {s : System} {before behind : List SubHeap} {subheap : SubHeap} {memory : Memory}
  {live : List ℕ} {ptr : ℕ}

theorem layout_map_reset {heaps : List SubHeap} :
    Layout (heaps.map SubHeap.reset) blocks ↔ Layout heaps blocks := by
  simp only [layout_iff, ← map_tail, pairwise_map, List.map_map, List.forall_mem_map,
    ne_eq, map_eq_nil_iff]
  exact Iff.rfl

/-- Heaps that differ in what is allocated have the same layout. -/
theorem Layout.update {subheap' : SubHeap} (h : Layout (before ++ subheap :: behind) blocks)
    (hreset : subheap'.reset = subheap.reset) :
    Layout (before ++ subheap' :: behind) blocks := by
  rw [← layout_map_reset] at h ⊢
  rw [map_append, map_cons, hreset]
  rwa [map_append, map_cons] at h

/-- A subheap that is not the main heap can be unlinked. -/
theorem Layout.unlink (h : Layout (before ++ subheap :: behind) blocks) (hmain : before ≠ []) :
    Layout (before ++ behind) (blocks.erase subheap.block) := by
  obtain ⟨main, before, rfl⟩ := exists_cons_of_ne_nil hmain
  have hsub : (before ++ behind).Sublist (before ++ subheap :: behind) :=
    (sublist_cons_self subheap behind).append_left before
  refine ⟨by simp, h.apart.sublist (hsub.cons_cons main), h.sorted.sublist hsub,
    fun other hother => h.chunks_eq other (hsub.subset hother), ?_⟩
  have hperm : ((subheap :: (before ++ behind)).map SubHeap.block).Perm blocks :=
    (perm_middle.symm.map _).trans h.blocks
  have := hperm.erase subheap.block
  rwa [map_cons, erase_cons_head] at this

/-- The other heaps do not overlap with a heap. -/
theorem Layout.apart_of_mem (h : Layout (before ++ subheap :: behind) blocks) :
    ∀ other ∈ before ++ behind, subheap.Apart other := by
  obtain ⟨-, hcons, hbefore⟩ := pairwise_append.mp h.apart
  intro other hother
  rcases mem_append.mp hother with hother | hother
  · exact (hbefore other hother subheap mem_cons_self).symm
  · exact (pairwise_cons.mp hcons).1 other hother

namespace Inv

section

/-! One heap changes. -/

variable (h : Inv params s) (hheaps : s.self.heaps = before ++ subheap :: behind)
  (hlive : live.filter (fun ptr => !subheap.heap.contains params ptr) =
    s.live.filter (fun ptr => !subheap.heap.contains params ptr))

include h hheaps hlive

/-- The pointers that the heap does not contain are in the others. -/
theorem exists_other (hptr : ptr ∈ live) (hnot : subheap.heap.contains params ptr = false) :
    ∃ other ∈ before ++ behind, other.heap.contains params ptr = true := by
  have hmem : ptr ∈ s.live := by
    have : ptr ∈ live.filter fun ptr => !subheap.heap.contains params ptr :=
      mem_filter.mpr ⟨hptr, by rw [hnot]; rfl⟩
    rw [hlive] at this
    exact (mem_filter.mp this).1
  obtain ⟨other, hother, hcontains⟩ := h.live ptr hmem
  rw [hheaps, mem_append, mem_cons] at hother
  refine ⟨other, mem_append.mpr ?_, hcontains⟩
  rcases hother with hother | rfl | hother
  · exact Or.inl hother
  · rw [hnot] at hcontains
    cases hcontains
  · exact Or.inr hother

variable (hsame : ∀ a, a < subheap.address ∨ subheap.finish ≤ a → memory a = s.memory a)

include hsame

/-- What happens in one heap does not concern the others. -/
theorem others : ∀ other ∈ before ++ behind, other.Inv params memory live := by
  intro other hother
  have hmem : other ∈ s.self.heaps := by
    rw [hheaps]
    exact ((sublist_cons_self subheap behind).append_left before).subset hother
  have hapart := (hheaps ▸ h.layout).apart_of_mem other hother
  have hself := h.heaps subheap (by rw [hheaps]; simp)
  refine (h.heaps other hmem).frame hapart hsame ?_
  -- No pointer in the other heap is in this one.
  have hfilter : ∀ pointers : List ℕ, pointers.filter (other.heap.contains params) =
      (pointers.filter fun ptr => !subheap.heap.contains params ptr).filter
        (other.heap.contains params) := by
    intro pointers
    rw [List.filter_filter]
    refine filter_congr fun ptr _ => ?_
    cases hcontains : other.heap.contains params ptr with
    | false => rfl
    | true => simp [(h.heaps other hmem).not_contains_of_apart hself hapart.symm hcontains]
  rw [hfilter live, hlive, ← hfilter]

/-- Something is allocated, deallocated or written in one heap. -/
theorem update {subheap' : SubHeap} (hreset : subheap'.reset = subheap.reset)
    (hself : subheap'.Inv params memory live) (hnodup : live.Nodup) (expanding : Bool) :
    Inv params ⟨⟨before ++ subheap' :: behind, expanding⟩, memory, live, s.blocks⟩ := by
  refine ⟨(hheaps ▸ h.layout).update hreset, ?_, ?_, hnodup⟩
  · intro other hother
    rcases mem_cons.mp (perm_middle.mem_iff.mp hother) with rfl | hother
    · exact hself
    · exact h.others hheaps hlive hsame other hother
  · intro ptr hptr
    cases hcontains : subheap.heap.contains params ptr with
    | true =>
      refine ⟨subheap', by simp, ?_⟩
      rwa [SubHeap.contains_of_reset_eq hreset]
    | false =>
      obtain ⟨other, hother, hcontains⟩ := h.exists_other hheaps hlive hptr hcontains
      exact ⟨other, perm_middle.mem_iff.mpr (mem_cons_of_mem _ hother), hcontains⟩

/-- A subheap without pointers is unlinked. -/
theorem unlink (hmain : before ≠ [])
    (hempty : live.filter (subheap.heap.contains params) = []) (hnodup : live.Nodup) (expanding : Bool) :
    Inv params ⟨⟨before ++ behind, expanding⟩, memory, live, s.blocks.erase subheap.block⟩ := by
  refine ⟨(hheaps ▸ h.layout).unlink hmain, h.others hheaps hlive hsame, ?_, hnodup⟩
  intro ptr hptr
  refine h.exists_other hheaps hlive hptr ?_
  rw [Bool.eq_false_iff]
  exact filter_eq_nil_iff.mp hempty ptr hptr

end

end Inv

/-- Every live pointer is in exactly one heap. -/
theorem Inv.subheapsOk (h : Inv params s) : SubheapsOk params s := by
  refine ⟨h.layout.sorted, h.layout.blocks, fun subheap hmem =>
    (h.heaps subheap (mem_of_mem_tail hmem)).totalChunks, ?_⟩
  intro ptr hptr
  obtain ⟨subheap, hmem, hcontains⟩ := h.live ptr hptr
  obtain ⟨before, behind, hheaps⟩ := append_of_mem hmem
  have hzero : (before ++ behind).countP (fun other => other.heap.contains params ptr) = 0 := by
    refine countP_eq_zero.mpr fun other hother => ?_
    rw [(h.heaps subheap hmem).not_contains_of_apart (h.heaps other ?_)
      ((hheaps ▸ h.layout).apart_of_mem other hother) hcontains]
    · exact Bool.false_ne_true
    · rw [hheaps]
      exact perm_middle.mem_iff.mpr (mem_cons_of_mem _ hother)
  rw [hheaps, perm_middle.countP_eq, countP_cons, hzero, if_pos hcontains]

/-! ## Steps -/

/-- The block at `memory` does not overlap with a heap. -/
def BlockApart (memory memorySize : ℕ) (subheap : SubHeap) : Prop :=
  memory + memorySize ≤ subheap.address ∨ subheap.finish ≤ memory
deriving Decidable

variable (params s)

/-- The bitmap of a heap in the block is clear. -/
def BitmapClear (memory memorySize : ℕ) : Prop :=
  ∀ i ∈ List.range (Heap.calculateChunks params (memorySize - sizeofSubHeap)),
    s.memory.bit (memory + sizeofSubHeap +
      Heap.calculateChunks params (memorySize - sizeofSubHeap) * params.chunkSize) i = false
deriving Decidable

/-- No subheap is unlinked when the pointer is deallocated. -/
def StaysLinked (ptr : ℕ) : Prop :=
  s.self.expanding = true ∨ ∀ subheap ∈ s.self.heaps.tail, subheap.heap.contains params ptr = true →
    subheap.heap.allocatedChunks ≠ Heap.allocationSizeInChunks s.memory ptr
deriving Decidable

/-- The condition on a step: requests are as for one heap, blocks that are added have room for the
`SubHeap`, do not overlap with the others and are clear where the bitmap will be, and `remove_memory`
does not reject the removal of a subheap. -/
def StepOk : Event → Prop
  | .allocate size => size + Heap.headerSize + params.chunkSize ≤ 2 ^ 32 ∧
      (size = 0 → ¬ params.chunkSize ∣ Heap.headerSize)
  | .deallocate ptr removed => removed = true ∨ s.StaysLinked params ptr
  | .addSubheap memory memorySize => sizeofSubHeap < memorySize ∧ memory + memorySize ≤ 2 ^ 32 ∧
      (∀ subheap ∈ s.self.heaps, BlockApart memory memorySize subheap) ∧
      s.BitmapClear params memory memorySize
  | _ => True

instance decidableStepOk :
    (event : Event) → Decidable (StepOk params s event)
  | .allocate size => inferInstanceAs (Decidable (size + Heap.headerSize + params.chunkSize ≤ 2 ^ 32 ∧
      (size = 0 → ¬ params.chunkSize ∣ Heap.headerSize)))
  | .deallocate ptr removed => inferInstanceAs (Decidable (removed = true ∨ s.StaysLinked params ptr))
  | .addSubheap memory memorySize => inferInstanceAs (Decidable (sizeofSubHeap < memorySize ∧
      memory + memorySize ≤ 2 ^ 32 ∧
      (∀ subheap ∈ s.self.heaps, BlockApart memory memorySize subheap) ∧
      s.BitmapClear params memory memorySize))
  | .setExpanding _ | .write .. => isTrue trivial

variable {params s}
/-- A pass over the heaps finds no room and changes nothing, or allocates in one of them. -/
theorem allocateFrom_spec {heaps : List SubHeap}
    (hheaps : ∀ subheap ∈ heaps, subheap.Inv params memory live)
    (hsize : size + Heap.headerSize + params.chunkSize ≤ 2 ^ 32)
    (hzero : size = 0 → ¬ params.chunkSize ∣ Heap.headerSize) :
    allocateFrom params memory size heaps = some (none, heaps, memory) ∨
    ∃ before subheap behind ptr heap memory', heaps = before ++ subheap :: behind ∧
      allocateFrom params memory size heaps =
        some (some ptr, before ++ { subheap with heap := heap } :: behind, memory') ∧
      { subheap with heap := heap }.reset = subheap.reset ∧
      subheap.heap.contains params ptr = true ∧
      SubHeap.Inv params memory' (ptr :: live) { subheap with heap := heap } ∧
      ∀ a, a < subheap.address ∨ subheap.finish ≤ a → memory' a = memory a := by
  induction heaps with
  | nil => exact Or.inl rfl
  | cons first rest ih =>
    rcases (hheaps first mem_cons_self).allocate hsize hzero with hallocate |
      ⟨ptr, heap, memory', hallocate, hspec⟩
    · rcases ih fun subheap hmem => hheaps subheap (mem_cons_of_mem _ hmem) with hnone |
        ⟨before, subheap, behind, ptr, heap, memory', rfl, hsome, hspec⟩
      · left
        simp [allocateFrom, hallocate, hnone]
      · right
        refine ⟨first :: before, subheap, behind, ptr, heap, memory', rfl, ?_, hspec⟩
        simp [allocateFrom, hallocate, hsome]
    · right
      refine ⟨[], first, rest, ptr, heap, memory', rfl, ?_, hspec⟩
      simp [allocateFrom, hallocate]

/-- An allocation that meets the condition. -/
theorem step_allocate (h : Inv params s) (hok : StepOk params s (.allocate size)) :
    ∃ s', s.step params (.allocate size) = some s' ∧ Inv params s' := by
  rcases allocateFrom_spec h.heaps hok.1 hok.2 with hnone |
    ⟨before, subheap, behind, ptr, heap, memory', hheaps, hsome, hreset, hcontains, hself, hsame⟩
  · exact ⟨s, by simp [step, allocatePass, hnone], h⟩
  · have hmem : subheap ∈ s.self.heaps := by rw [hheaps]; simp
    -- The pointer is not one that is allocated already.
    have hnew : ptr ∉ s.live := by
      intro hptr
      have hnodup := hself.heap.nodup
      rw [filter_cons_of_pos (by rwa [SubHeap.contains_of_reset_eq hreset])] at hnodup
      refine (nodup_cons.mp hnodup).1 (mem_filter.mpr ⟨hptr, ?_⟩)
      rwa [SubHeap.contains_of_reset_eq hreset]
    refine ⟨_, by simp only [step, allocatePass, hsome]; rfl, ?_⟩
    refine h.update hheaps ?_ hsame hreset hself (nodup_cons.mpr ⟨hnew, h.nodup⟩) _
    exact filter_cons_of_neg (by simp [hcontains])

/-- Erasing a pointer that the heap contains. -/
theorem filter_erase_of_contains (hnodup : live.Nodup)
    (hcontains : subheap.heap.contains params ptr = true) :
    (live.erase ptr).filter (fun p => !subheap.heap.contains params p) =
      live.filter fun p => !subheap.heap.contains params p := by
  rw [hnodup.erase_eq_filter, List.filter_filter]
  refine filter_congr fun p _ => ?_
  by_cases hp : p = ptr
  · simp [hp, hcontains]
  · simp [hp]

/-- A deallocation that meets the condition. -/
theorem step_deallocate (h : Inv params s) {removed : Bool}
    (hok : StepOk params s (.deallocate ptr removed)) :
    ∃ s', s.step params (.deallocate ptr removed) = some s' ∧ Inv params s' := by
  by_cases hptr : ptr ∈ s.live
  · obtain ⟨before, subheap, behind, hfind⟩ := exists_findHeap (h.live ptr hptr)
    obtain ⟨hheaps, hcontains⟩ := findHeap_eq_some hfind
    have hmem : subheap ∈ s.self.heaps := by rw [hheaps]; simp
    obtain ⟨heap, memory', hdeallocate, hreset, hallocated, hle, hself, hsame⟩ :=
      (h.heaps subheap hmem).deallocate h.nodup hptr hcontains
    have hlive := filter_erase_of_contains h.nodup hcontains
    by_cases hunlink : heap.allocatedChunks = 0 ∧ before ≠ [] ∧ s.self.expanding = false
    · obtain ⟨hempty, hmain, hexpanding⟩ := hunlink
      -- The subheap is not the main heap, so its removal is not rejected.
      have hremoved : removed = true := by
        refine hok.resolve_right ?_
        rintro (hexp | hstays)
        · rw [hexpanding] at hexp
          cases hexp
        · refine hstays subheap ?_ hcontains (by omega)
          obtain ⟨main, before, rfl⟩ := exists_cons_of_ne_nil hmain
          rw [hheaps]
          simp
      subst hremoved
      refine ⟨_, by simp only [step, hptr, if_true, deallocate, deallocateBlock, hfind, hdeallocate,
        hempty, hmain, hexpanding, ne_eq, not_false_eq_true, and_self, bind_eq_bind,
        bind_some, Option.pure_def]; rfl, ?_⟩
      refine h.unlink hheaps hlive hsame hmain ?_ (h.nodup.erase ptr) _
      rw [← SubHeap.contains_of_reset_eq hreset]
      exact hself.filter_eq_nil hempty
    · refine ⟨_, by simp only [step, hptr, if_true, deallocate, deallocateBlock, hfind, hdeallocate,
        hunlink, if_false, bind_eq_bind, bind_some, Option.pure_def]; rfl, ?_⟩
      exact h.update hheaps hlive hsame hreset hself (h.nodup.erase ptr) _
  · exact ⟨s, if_neg hptr, h⟩

/-- A heap over memory whose bitmap is clear. -/
theorem inv_of_create {address start memorySize : ℕ} {heap : Heap} (haddress : address ≤ start)
    (hcreate : Heap.create params start memorySize = some heap) (hend : start + memorySize ≤ 2 ^ 32)
    (hsize : memorySize < 2 ^ 32)
    (hclear : ∀ i < heap.totalChunks, heap.bitmap.bit memory i = false) :
    SubHeap.Inv params memory [] ⟨address, heap, memorySize⟩ := by
  have hfresh : Heap.System.Fresh params ⟨heap, memory, []⟩ :=
    ⟨⟨start, memorySize, hcreate, hend, hsize⟩, hclear, rfl⟩
  obtain rfl := some.inj ((Heap.create_eq _ _).symm.trans hcreate)
  exact ⟨(Heap.System.runInv_of_fresh hfresh).toInv, rfl, haddress⟩

/-- Adding a block that meets the condition. -/
theorem step_addSubheap (h : Inv params s) {address memorySize : ℕ}
    (hok : StepOk params s (.addSubheap address memorySize)) :
    ∃ s', s.step params (.addSubheap address memorySize) = some s' ∧ Inv params s' := by
  obtain ⟨hsize, hend, hapart, hclear⟩ := hok
  obtain ⟨heap, hcreate⟩ : ∃ heap,
      Heap.create params (address + sizeofSubHeap) (memorySize - sizeofSubHeap) = some heap :=
    ⟨_, Heap.create_eq _ _⟩
  obtain ⟨newHeap, hnew⟩ : ∃ newHeap : SubHeap,
      newHeap = ⟨address, heap, memorySize - sizeofSubHeap⟩ := ⟨_, rfl⟩
  have hpos : 0 < sizeofSubHeap := by decide
  have hheap := hcreate
  rw [Heap.create_eq, some.injEq] at hheap
  have hchunks : newHeap.heap.chunks = address + sizeofSubHeap := by rw [hnew, ← hheap]
  have haddress : newHeap.address = address := by rw [hnew]
  have hfinish : newHeap.finish = address + memorySize := by
    rw [SubHeap.finish, hchunks, hnew]
    simp only
    omega
  have hempty : newHeap.Inv params s.memory [] := by
    rw [hnew]
    refine inv_of_create (Nat.le_add_right _ _) hcreate (by omega) (by omega) ?_
    rw [← hheap]
    exact fun i hi => hclear i (mem_range.mpr hi)
  have hapart' : ∀ subheap ∈ s.self.heaps, newHeap.Apart subheap := by
    intro subheap hmem
    rw [SubHeap.Apart, hfinish, haddress]
    exact hapart subheap hmem
  -- The pointers that are allocated are in the other heaps.
  have hinv : newHeap.Inv params s.memory s.live := by
    refine ⟨?_, hempty.totalChunks, hempty.address_le⟩
    have hnil : s.live.filter (newHeap.heap.contains params) = [] := by
      refine filter_eq_nil_iff.mpr fun ptr hptr => ?_
      obtain ⟨subheap, hmem, hcontains⟩ := h.live ptr hptr
      rw [(h.heaps subheap hmem).not_contains_of_apart hempty (hapart' subheap hmem).symm hcontains]
      exact Bool.false_ne_true
    rw [hnil]
    exact hempty.heap
  obtain ⟨main, subheaps, hheaps⟩ := exists_cons_of_ne_nil h.layout.ne_nil
  have hperm := link_perm newHeap s.self.heaps
  have hsorted := h.layout.sorted
  have hchunksEq := h.layout.chunks_eq
  have hblocks := h.layout.blocks
  rw [hheaps, tail_cons] at hsorted hchunksEq hblocks
  refine ⟨{ s with self.heaps := link newHeap s.self.heaps, blocks := (address, memorySize) :: s.blocks },
    ?_, ⟨?_, ?_, ?_, ?_, ?_⟩, ?_, ?_, h.nodup⟩
  · simp only [step, addSubheap, verify, gt_iff_lt, hsize, if_true, hcreate, bind_eq_bind,
      bind_some, Option.pure_def, hnew]
  · rw [hheaps]
    exact cons_ne_nil _ _
  · exact (hperm.pairwise_iff SubHeap.Apart.symm).mpr
      (pairwise_cons.mpr ⟨hapart', h.layout.apart⟩)
  · rw [hheaps]
    refine insertSubheap_sorted hsorted fun subheap hmem => ?_
    have := hchunksEq subheap hmem
    have := hapart' subheap (by rw [hheaps]; exact mem_cons_of_mem _ hmem)
    rw [SubHeap.Apart, hfinish, haddress, SubHeap.finish] at this
    omega
  · rw [hheaps]
    intro subheap hmem
    rcases mem_cons.mp ((insertSubheap_perm newHeap subheaps).mem_iff.mp hmem) with rfl | hmem
    · rw [hchunks, haddress]
    · exact hchunksEq subheap hmem
  · rw [hheaps]
    refine ((insertSubheap_perm newHeap subheaps).map SubHeap.block).trans ?_
    have hblock : newHeap.block = (address, memorySize) := by
      rw [hnew, SubHeap.block]
      simp only [Prod.mk.injEq, true_and]
      omega
    rw [map_cons, hblock]
    exact hblocks.cons _
  · intro subheap hmem
    rcases mem_cons.mp (hperm.mem_iff.mp hmem) with rfl | hmem
    · exact hinv
    · exact h.heaps subheap hmem
  · intro ptr hptr
    obtain ⟨subheap, hmem, hcontains⟩ := h.live ptr hptr
    exact ⟨subheap, hperm.mem_iff.mpr (mem_cons_of_mem _ hmem), hcontains⟩

/-- The owner of a block writes in it. -/
theorem step_write (h : Inv params s) (offset : ℕ) (byte : BitVec 8) :
    ∃ s', s.step params (.write ptr offset byte) = some s' ∧ Inv params s' := by
  by_cases hwrite : ptr ∈ s.live ∧
      Heap.headerSize + offset < Heap.allocationSizeInChunks s.memory ptr * params.chunkSize
  · obtain ⟨hptr, hoffset⟩ := hwrite
    refine ⟨_, if_pos ⟨hptr, hoffset⟩, ?_⟩
    obtain ⟨subheap, hmem, hcontains⟩ := h.live ptr hptr
    obtain ⟨before, behind, hheaps⟩ := append_of_mem hmem
    have hself := h.heaps subheap hmem
    have hin : ptr ∈ s.live.filter (subheap.heap.contains params) :=
      mem_filter.mpr ⟨hptr, hcontains⟩
    have hptrEq := hself.heap.ptr_eq hin
    have hblock := hself.heap.end_block_le hin
    have hend := hself.end_bitmap_le
    have hlow := (hself.mem_block hcontains).1
    have : Inv params ⟨⟨before ++ subheap :: behind, s.self.expanding⟩,
        s.memory.store (ptr + offset) byte, s.live, s.blocks⟩ :=
      h.update hheaps rfl (fun a ha => Memory.store_of_ne (by omega)) rfl
        ⟨hself.heap.write hin fun a ha => Memory.store_of_ne (by omega), hself.totalChunks,
          hself.address_le⟩ h.nodup s.self.expanding
    rw [← hheaps] at this
    exact this
  · exact ⟨s, if_neg hwrite, h⟩

/-- Every step that meets the condition completes and keeps the invariant. -/
theorem step_spec (h : Inv params s) (event : Event) (hok : StepOk params s event) :
    ∃ s', s.step params event = some s' ∧ Inv params s' := by
  cases event with
  | allocate size => exact step_allocate h hok
  | deallocate ptr removed => exact step_deallocate h hok
  | addSubheap memory memorySize => exact step_addSubheap h hok
  | setExpanding expanding => exact ⟨_, rfl, h.layout, h.heaps, h.live, h.nodup⟩
  | write ptr offset byte => exact step_write h offset byte

/-- A heap that has just been constructed over memory whose bitmap is clear. -/
structure Fresh (params : HeapParameters) (s : System) : Prop where
  created : ∃ start memorySize heap, Heap.create params start memorySize = some heap ∧
    s.self.heaps = [⟨start, heap, memorySize⟩] ∧ start + memorySize ≤ 2 ^ 32 ∧
    memorySize < 2 ^ 32 ∧ ∀ i < heap.totalChunks, heap.bitmap.bit s.memory i = false
  live : s.live = []
  blocks : s.blocks = []

theorem inv_of_fresh (h : Fresh params s) : Inv params s := by
  obtain ⟨⟨start, memorySize, heap, hcreate, hheaps, hend, hsize, hclear⟩, hlive, hblocks⟩ := h
  refine ⟨?_, ?_, by simp [hlive], by simp [hlive]⟩
  · rw [hheaps, hblocks]
    exact ⟨cons_ne_nil _ _, pairwise_singleton _ _, List.Pairwise.nil, by simp, List.Perm.refl _⟩
  · intro subheap hmem
    rw [hheaps, mem_singleton] at hmem
    rw [hmem, hlive]
    exact inv_of_create le_rfl hcreate hend hsize hclear

/-- **The subheaps.** In every run whose steps meet the condition, no assertion fails, and in every state
the list of subheaps is sorted, is made of the blocks that were added and not removed, and every pointer
that is allocated is in exactly one heap. -/
theorem subheapsOk_of_meets (h : Fresh params s) (events : List Event)
    (hmeets : Meets (step params) (StepOk params) s events) :
    Safe (step params) (SubheapsOk params) s events :=
  safe_of_meets (fun _ hI => hI.subheapsOk) (fun _ event hI hok => step_spec hI event hok)
    (inv_of_fresh h) hmeets

/-- A heap over memory that is clear. -/
def clearHeap (params : HeapParameters) (memorySize : ℕ) : System where
  self := ⟨(Heap.create params 4096 memorySize).toList.map (⟨4096, ·, memorySize⟩), false⟩
  memory := fun _ => 0
  live := []
  blocks := []

/-- Two subheaps are added. One of them is removed when the block in it has been deallocated. -/
theorem subheapsOk_of_meets_removed :
    Safe (step Heap.System.kmallocHeap) (SubheapsOk Heap.System.kmallocHeap)
      (clearHeap Heap.System.kmallocHeap 40)
      [.addSubheap 12288 94, .addSubheap 8192 94, .allocate 10, .allocate 40, .write 8224 5 7,
        .deallocate 8224 true, .deallocate 4100 false] :=
  subheapsOk_of_meets ⟨⟨4096, 40, _, rfl, rfl, by decide, by decide, by decide⟩, rfl, rfl⟩ _
    (by decide +kernel)

/-- A subheap with 66 bytes of memory has two chunks. When its removal has been rejected, it has 38
bytes and one chunk. -/
theorem subheap_shrinks_when_rejected :
    let sizes := fun s : System =>
      s.self.heaps.tail.map fun subheap => (subheap.memorySize, subheap.heap.totalChunks)
    (run (step Heap.System.kmallocHeap) (clearHeap Heap.System.kmallocHeap 40)
      [.addSubheap 8192 94, .allocate 40]).map sizes = some [(66, 2)] ∧
    (run (step Heap.System.kmallocHeap) (clearHeap Heap.System.kmallocHeap 40)
      [.addSubheap 8192 94, .allocate 40, .deallocate 8224 false]).map sizes = some [(38, 1)] := by
  refine ⟨?_, ?_⟩ <;> decide +kernel

end System

end ExpandableHeap

end Kernel
