import PranaOS.AK.BitmapView.FindRange
import PranaOS.ToMathlib.Run

/-!
# `Kernel/Heap/Heap.h`: `Heap`

A heap is a piece of memory that is cut into chunks. A bitmap behind the chunks says which of them are
allocated. A block is a number of consecutive chunks, and starts with a header that has this number;
the pointer that is given out is the one behind the header.

The functions take the memory and return what it is afterwards. Pointers and sizes have 32 bits.

`deallocate` takes the pointer behind the header of a block at the end of the heap for one that is not
in the heap, if the block has nothing but the header. This is the only way in which an allocation that
does not overflow can go wrong.
-/

namespace Kernel

open AK Transition Finset Nat Option

/-- The template arguments of `Heap`. -/
structure HeapParameters where
  /-- `CHUNK_SIZE`. -/
  chunkSize : ℕ
  /-- `HEAP_SCRUB_BYTE_ALLOC`. -/
  scrubByteAlloc : BitVec 32
  /-- `HEAP_SCRUB_BYTE_FREE`. -/
  scrubByteFree : BitVec 32
  chunkSize_pos : 0 < chunkSize
  chunkSize_lt : chunkSize + 1 < 2 ^ 32

/-- `Heap`. -/
structure Heap where
  /-- `m_total_chunks`. -/
  totalChunks : ℕ
  /-- `m_allocated_chunks`. -/
  allocatedChunks : ℕ
  /-- `m_chunks`. -/
  chunks : ℕ
  /-- `m_bitmap`. -/
  bitmap : BitmapView
deriving DecidableEq

namespace Heap

/-- `sizeof(AllocationHeader)`. -/
def headerSize : ℕ := 4

/-- The first chunk count for which `allocate` looks for the best fit. -/
def bestFitThreshold : ℕ := 128

variable (params : HeapParameters)

/-- `calculate_chunks`. -/
def calculateChunks (memorySize : ℕ) : ℕ := memorySize / (params.chunkSize + 1)

/-- `Heap(memory, memory_size)`. -/
def create (memory memorySize : ℕ) : Option Heap := do
  let totalChunks := calculateChunks params memorySize
  verify (totalChunks * params.chunkSize + (totalChunks + 7) / 8 ≤ memorySize)
  return {
    totalChunks := totalChunks
    allocatedChunks := 0
    chunks := memory
    bitmap := ⟨memory + totalChunks * params.chunkSize, totalChunks⟩ }

/-- `calculate_memory_for_bytes`. -/
def calculateMemoryForBytes (bytes : ℕ) : ℕ :=
  let neededChunks := (headerSize + bytes + params.chunkSize - 1) % 2 ^ 32 / params.chunkSize
  (neededChunks * params.chunkSize + (neededChunks + 7) / 8) % 2 ^ 32

/-- `chunks_needed` of `allocate`. -/
def chunksNeeded (size : ℕ) : ℕ :=
  let realSize := (size + headerSize) % 2 ^ 32
  (realSize + params.chunkSize - 1) % 2 ^ 32 / params.chunkSize

variable (self : Heap)

/-- `free_chunks`. -/
def freeChunks : ℕ := (self.totalChunks + 2 ^ 32 - self.allocatedChunks) % 2 ^ 32

/-- The search of `allocate`, by the policy for the number of chunks. -/
def findChunks (memory : Memory) (chunksNeeded : ℕ) : Option (Option ℕ) :=
  if chunksNeeded < bestFitThreshold then self.bitmap.findFirstFit memory chunksNeeded
  else self.bitmap.findBestFit memory chunksNeeded (self.bitmap.size + 1)

/-- The memory after `memset` with a byte that is not 0. -/
def scrub (byte : BitVec 32) (memory : Memory) (address count : ℕ) : Memory :=
  if byte ≠ 0 then memory.fill address count (byte.setWidth 8) else memory

/-- `allocate`, after the chunks have been found. -/
def allocateAt (memory : Memory) (firstChunk chunksNeeded : ℕ) :
    Option (ℕ × Heap × Memory) := do
  let a := self.chunks + firstChunk * params.chunkSize
  let ptr := a + headerSize
  let memory := memory.store32 a (BitVec.ofNat 32 chunksNeeded)
  let memory ← self.bitmap.setRange true true memory firstChunk chunksNeeded
  let self := { self with allocatedChunks := (self.allocatedChunks + chunksNeeded) % 2 ^ 32 }
  let memory := scrub params.scrubByteAlloc memory ptr
    ((chunksNeeded * params.chunkSize + 2 ^ 32 - headerSize) % 2 ^ 32)
  return (ptr, self, memory)

/-- `allocate`. The pointer is `none` for `nullptr`. -/
def allocate (memory : Memory) (size : ℕ) : Option (Option ℕ × Heap × Memory) :=
  if self.freeChunks < chunksNeeded params size then some (none, self, memory)
  else
    match self.findChunks memory (chunksNeeded params size) with
    | none => none
    | some none => some (none, self, memory)
    | some (some firstChunk) => do
      let (ptr, self, memory) ← self.allocateAt params memory firstChunk (chunksNeeded params size)
      return (some ptr, self, memory)

/-- `allocation_size_in_chunks` in the header of a block. -/
def allocationSizeInChunks (memory : Memory) (ptr : ℕ) : ℕ := (memory.load32 (ptr - headerSize)).toNat

/-- `deallocate`. -/
def deallocate (memory : Memory) (ptr : ℕ) : Option (Heap × Memory) := do
  let a := ptr - headerSize
  let heapEnd := self.chunks + self.totalChunks * params.chunkSize
  verify (self.chunks ≤ a ∧ ptr < heapEnd)
  let start := (a - self.chunks) / params.chunkSize
  let isAllocated ← self.bitmap.get memory start
  verify (isAllocated = true)
  verify ((a + allocationSizeInChunks memory ptr * params.chunkSize) % 2 ^ 32 ≤ heapEnd)
  let memory ← self.bitmap.setRange false true memory start (allocationSizeInChunks memory ptr)
  let size := allocationSizeInChunks memory ptr
  verify (self.allocatedChunks ≥ size)
  return ({ self with allocatedChunks := self.allocatedChunks - size },
    scrub params.scrubByteFree memory a (size * params.chunkSize % 2 ^ 32))

/-! ## Blocks -/

/-- The first chunk of the block with this pointer. -/
def firstChunk (ptr : ℕ) : ℕ := (ptr - headerSize - self.chunks) / params.chunkSize

/-- The chunks of the block with this pointer, by its header. -/
def block (memory : Memory) (ptr : ℕ) : Finset ℕ :=
  Finset.Ico (self.firstChunk params ptr)
    (self.firstChunk params ptr + allocationSizeInChunks memory ptr)

/-- What should hold of a heap and the pointers that are allocated. -/
structure Consistent (heap : Heap) (memory : Memory) (live : List ℕ) : Prop where
  inside : ∀ ptr ∈ live,
    heap.firstChunk params ptr + allocationSizeInChunks memory ptr ≤ heap.totalChunks
  disjoint : live.Pairwise fun ptr ptr' =>
    Disjoint (heap.block params memory ptr) (heap.block params memory ptr')
  bitmap : ∀ i < heap.totalChunks,
    heap.bitmap.bit memory i = true ↔ ∃ ptr ∈ live, i ∈ heap.block params memory ptr
  allocatedChunks : heap.allocatedChunks = (heap.bitmap.setBits memory).card

/-- The chunks of all blocks. -/
def blocks (memory : Memory) (live : List ℕ) : Multiset ℕ :=
  (live : Multiset ℕ).bind fun ptr => (self.block params memory ptr).val

/-- The pointer is the one behind the header at the beginning of a chunk, and the header is inside of the
block. -/
structure BlockOk (heap : Heap) (memory : Memory) (ptr : ℕ) : Prop where
  ptr_eq : ptr = heap.chunks + heap.firstChunk params ptr * params.chunkSize + headerSize
  headerSize_le : headerSize ≤ allocationSizeInChunks memory ptr * params.chunkSize

/-- The invariant: the set bits are the chunks of the blocks, each of them once, and the bitmap is behind
the chunks. -/
structure Inv (heap : Heap) (memory : Memory) (live : List ℕ) : Prop where
  setBits_eq : (heap.bitmap.setBits memory).val = heap.blocks params memory live
  allocatedChunks : heap.allocatedChunks = (heap.bitmap.setBits memory).card
  bitmap_eq : heap.bitmap = ⟨heap.chunks + heap.totalChunks * params.chunkSize, heap.totalChunks⟩
  end_le : heap.chunks + heap.totalChunks * params.chunkSize + (heap.totalChunks + 7) / 8 ≤ 2 ^ 32
  size_lt : heap.totalChunks * (params.chunkSize + 1) < 2 ^ 32
  ok : ∀ ptr ∈ live, heap.BlockOk params memory ptr

variable {params} {self : Heap} {memory memory' : Memory} {live : List ℕ} {ptr : ℕ}

/-- The chunks that a pointer behind a header belongs to. -/
theorem firstChunk_eq (self : Heap) (first : ℕ) :
    self.firstChunk params (self.chunks + first * params.chunkSize + headerSize) = first := by
  rw [firstChunk, Nat.add_sub_cancel, Nat.add_sub_cancel_left,
    Nat.mul_div_cancel _ params.chunkSize_pos]

/-- A block that has its header has chunks. -/
theorem pos_of_headerSize_le {count : ℕ} (h : headerSize ≤ count * params.chunkSize) : 0 < count := by
  by_contra hzero
  simp [Nat.eq_zero_of_not_pos hzero, headerSize] at h

/-- Chunks that are disjoint are disjoint pieces of memory. -/
theorem mul_chunkSize_le_of_disjoint (params : HeapParameters) {i n j m : ℕ} (hn : 0 < n) (hm : 0 < m)
    (h : Disjoint (Finset.Ico i (i + n)) (Finset.Ico j (j + m))) :
    i * params.chunkSize + n * params.chunkSize ≤ j * params.chunkSize ∨
      j * params.chunkSize + m * params.chunkSize ≤ i * params.chunkSize := by
  have hor : i + n ≤ j ∨ j + m ≤ i := by
    by_contra hnot
    push Not at hnot
    refine disjoint_left.mp h (mem_Ico.mpr ⟨le_max_left i j, ?_⟩)
      (mem_Ico.mpr ⟨le_max_right i j, ?_⟩) <;> omega
  rw [← Nat.add_mul, ← Nat.add_mul]
  exact hor.imp (Nat.mul_le_mul_right _) (Nat.mul_le_mul_right _)

namespace Inv

section

variable (h : Inv params self memory live)

include h

theorem ptr_eq (hptr : ptr ∈ live) :
    ptr = self.chunks + self.firstChunk params ptr * params.chunkSize + headerSize :=
  (h.ok ptr hptr).ptr_eq

theorem headerSize_le (hptr : ptr ∈ live) :
    headerSize ≤ allocationSizeInChunks memory ptr * params.chunkSize :=
  (h.ok ptr hptr).headerSize_le

theorem data_eq : self.bitmap.data = self.chunks + self.totalChunks * params.chunkSize := by
  rw [h.bitmap_eq]

theorem size_eq : self.bitmap.size = self.totalChunks := by rw [h.bitmap_eq]

/-- The chunk sizes of a block are not zero. -/
theorem allocationSizeInChunks_pos (hptr : ptr ∈ live) :
    0 < allocationSizeInChunks memory ptr :=
  pos_of_headerSize_le (h.headerSize_le hptr)

theorem mem_setBits_iff {i : ℕ} :
    i ∈ self.bitmap.setBits memory ↔ ∃ ptr ∈ live, i ∈ self.block params memory ptr := by
  rw [← mem_val, h.setBits_eq, blocks, Multiset.mem_bind]
  rfl

/-- The bits of the chunks of a block are set. -/
theorem block_subset (hptr : ptr ∈ live) :
    self.block params memory ptr ⊆ self.bitmap.setBits memory :=
  fun _ hi => h.mem_setBits_iff.mpr ⟨ptr, hptr, hi⟩

theorem consistent : Consistent params self memory live where
  inside ptr hptr := by
    have hpos := h.allocationSizeInChunks_pos hptr
    -- the last chunk of the block
    have hlast : self.firstChunk params ptr + (allocationSizeInChunks memory ptr - 1) ∈
        self.block params memory ptr := mem_Ico.mpr (by omega)
    have hlt := (BitmapView.mem_setBits.mp (h.block_subset hptr hlast)).1
    rw [h.size_eq] at hlt
    omega
  disjoint := by
    have hnodup := (self.bitmap.setBits memory).nodup
    rw [h.setBits_eq, blocks, Multiset.nodup_bind, Multiset.pairwise_coe_iff_pairwise] at hnodup
    exact hnodup.2.imp disjoint_val.mp
  bitmap i hi := by
    rw [← h.mem_setBits_iff, BitmapView.mem_setBits, h.size_eq, and_iff_right hi]
  allocatedChunks := h.allocatedChunks

theorem inside (hptr : ptr ∈ live) :
    self.firstChunk params ptr + allocationSizeInChunks memory ptr ≤ self.totalChunks :=
  h.consistent.inside ptr hptr

theorem disjoint_of_ne {ptr' : ℕ} (hptr : ptr ∈ live)
    (hptr' : ptr' ∈ live) (hne : ptr ≠ ptr') :
    Disjoint (self.block params memory ptr) (self.block params memory ptr') := by
  exact h.consistent.disjoint.forall hptr hptr' hne

/-- No pointer is given out twice. -/
theorem nodup : live.Nodup := by
  refine h.consistent.disjoint.imp_of_mem ?_
  rintro p q hp - hd rfl
  have hpos := h.allocationSizeInChunks_pos hp
  have hmem : self.firstChunk params p ∈ self.block params memory p :=
    mem_Ico.mpr ⟨le_rfl, by omega⟩
  exact disjoint_left.mp hd hmem hmem

/-- A block ends before the bitmap. -/
theorem end_block_le (hptr : ptr ∈ live) :
    self.chunks + self.firstChunk params ptr * params.chunkSize +
      allocationSizeInChunks memory ptr * params.chunkSize ≤ self.bitmap.data := by
  have hle := Nat.mul_le_mul_right params.chunkSize (h.inside hptr)
  rw [Nat.add_mul] at hle
  rw [h.data_eq]
  omega

end

end Inv

/-- If the headers are the same, so are the blocks. -/
theorem blocks_congr (self : Heap)
    (h : ∀ p ∈ live, allocationSizeInChunks memory' p = allocationSizeInChunks memory p) :
    self.blocks params memory' live = self.blocks params memory live :=
  Multiset.bind_congr fun p hp => by rw [block, block, h p hp]

theorem BlockOk.congr (h : self.BlockOk params memory ptr)
    (hheader : allocationSizeInChunks memory' ptr = allocationSizeInChunks memory ptr) :
    self.BlockOk params memory' ptr :=
  ⟨h.ptr_eq, hheader ▸ h.headerSize_le⟩

/-- The header of a block depends on its four bytes. -/
theorem allocationSizeInChunks_congr {first : ℕ}
    (hptr : ptr = self.chunks + first * params.chunkSize + headerSize)
    (h : ∀ a, self.chunks + first * params.chunkSize ≤ a →
      a < self.chunks + first * params.chunkSize + headerSize → memory' a = memory a) :
    allocationSizeInChunks memory' ptr = allocationSizeInChunks memory ptr := by
  have hsub : ptr - headerSize = self.chunks + first * params.chunkSize := by omega
  rw [allocationSizeInChunks, allocationSizeInChunks, hsub, Memory.load32_congr h]

variable (h : Inv params self memory live)

include h

/-- The invariant depends on the headers of the blocks and on the bits of the bitmap. -/
theorem Inv.of_same
    (hheader : ∀ p ∈ live, allocationSizeInChunks memory' p = allocationSizeInChunks memory p)
    (hbit : ∀ i < self.bitmap.size, self.bitmap.bit memory' i = self.bitmap.bit memory i) :
    Inv params self memory' live := by
  have hsetBits := BitmapView.setBits_congr hbit
  refine ⟨?_, ?_, h.bitmap_eq, h.end_le, h.size_lt, fun p hp => (h.ok p hp).congr (hheader p hp)⟩
  · rw [hsetBits, blocks_congr self hheader, h.setBits_eq]
  · rw [hsetBits, h.allocatedChunks]

/-- Writing inside a block, behind its header, does not matter. -/
theorem Inv.write (hptr : ptr ∈ live)
    (hsame : ∀ a, a < ptr ∨ self.chunks + self.firstChunk params ptr * params.chunkSize +
      allocationSizeInChunks memory ptr * params.chunkSize ≤ a → memory' a = memory a) :
    Inv params self memory' live := by
  have hptrEq := h.ptr_eq hptr
  refine h.of_same ?_ fun i _ => BitmapView.bit_congr (fun a ha =>
    hsame a (Or.inr ((h.end_block_le hptr).trans ha))) i
  intro p hp
  refine allocationSizeInChunks_congr (h.ptr_eq hp) fun a hlow hhigh => hsame a ?_
  by_cases hpp : p = ptr
  · subst hpp
    omega
  · -- The header is inside another block.
    have := mul_chunkSize_le_of_disjoint params (h.allocationSizeInChunks_pos hp)
      (h.allocationSizeInChunks_pos hptr) (h.disjoint_of_ne hp hptr hpp)
    omega

/-- A heap depends on the memory from its chunks to the end of its bitmap. -/
theorem Inv.congr
    (hsame : ∀ a, self.chunks ≤ a → a < self.bitmap.data + self.bitmap.sizeInBytes →
      memory' a = memory a) :
    Inv params self memory' live := by
  have hdata := h.data_eq
  refine h.of_same ?_ fun i hi =>
    BitmapView.bit_congr_of_lt (fun a hlow hhigh => hsame a (by omega) hhigh) hi
  intro p hp
  refine allocationSizeInChunks_congr (h.ptr_eq hp) fun a hlow hhigh => hsame a (by omega) ?_
  have := h.headerSize_le hp
  have := h.end_block_le hp
  omega

omit h

/-! ## Allocating -/

/-- The chunks and the bitmap fit in the memory, as the constructor asserts. -/
theorem calculateChunks_fits (params : HeapParameters) (memorySize : ℕ) :
    calculateChunks params memorySize * params.chunkSize +
      (calculateChunks params memorySize + 7) / 8 ≤ memorySize := by
  have hle : calculateChunks params memorySize * (params.chunkSize + 1) ≤ memorySize :=
    div_mul_le_self _ _
  rw [mul_succ] at hle
  omega

/-- The heap that is constructed over a piece of memory. -/
theorem create_eq (start memorySize : ℕ) : create params start memorySize =
    some ⟨calculateChunks params memorySize, 0, start,
      ⟨start + calculateChunks params memorySize * params.chunkSize,
        calculateChunks params memorySize⟩⟩ := by
  simp only [create, verify, calculateChunks_fits, if_true]
  rfl

/-- Bytes outside the block are not scrubbed. -/
theorem scrub_of_outside {byte : BitVec 32} {address count a : ℕ}
    (h : a < address ∨ address + count ≤ a) : scrub byte memory address count a = memory a := by
  unfold scrub Memory.fill
  split
  · exact if_neg (by omega)
  · rfl

section

variable (h : Inv params self memory live)

include h

/-- The number of chunks fits in 32 bits. -/
theorem Inv.totalChunks_lt : self.totalChunks < 2 ^ 32 :=
  (Nat.le_mul_of_pos_right _ (succ_pos _)).trans_lt h.size_lt

theorem Inv.allocatedChunks_le : self.allocatedChunks ≤ self.totalChunks := by
  rw [h.allocatedChunks]
  refine (card_le_card (filter_subset _ _)).trans ?_
  rw [card_range, h.size_eq]

/-- The pointer of a block that has more than its header is below the end of the heap. -/
theorem Inv.lt_end (hptr : ptr ∈ live)
    (hlt : headerSize < allocationSizeInChunks memory ptr * params.chunkSize) :
    ptr < self.chunks + self.totalChunks * params.chunkSize := by
  have hend := h.end_block_le hptr
  have hptrEq := h.ptr_eq hptr
  rw [h.data_eq] at hend
  omega

theorem Inv.allocationSizeInChunks_le (hptr : ptr ∈ live) :
    allocationSizeInChunks memory ptr ≤ self.allocatedChunks := by
  have hcard := card_le_card (h.block_subset hptr)
  rwa [block, card_Ico, Nat.add_sub_cancel_left, ← h.allocatedChunks] at hcard

/-- The headers of the blocks that are there are not in the part of the memory that a new block or the
bitmap takes. -/
theorem Inv.header_outside {first count : ℕ} (hcount : 0 < count)
    (hdisjoint : Disjoint (Finset.Ico first (first + count)) (self.block params memory ptr))
    (hptr : ptr ∈ live) {a : ℕ} (hlow : self.chunks + self.firstChunk params ptr * params.chunkSize ≤ a)
    (hhigh : a < self.chunks + self.firstChunk params ptr * params.chunkSize + headerSize) :
    (a < self.chunks + first * params.chunkSize ∨
      self.chunks + first * params.chunkSize + count * params.chunkSize ≤ a) ∧
    a < self.bitmap.data := by
  have := mul_chunkSize_le_of_disjoint params hcount (h.allocationSizeInChunks_pos hptr) hdisjoint
  have := h.headerSize_le hptr
  have := h.end_block_le hptr
  omega

end

/-- What allocating and deallocating a block does to the memory: the bits of its chunks get the value,
and nothing but the block and the bitmap is written. -/
structure Written (params : HeapParameters) (heap : Heap) (first count : ℕ) (value : Bool)
    (memory memory' : Memory) : Prop where
  setBits : heap.bitmap.setBits memory' =
    if value then heap.bitmap.setBits memory ∪ Finset.Ico first (first + count)
    else heap.bitmap.setBits memory \ Finset.Ico first (first + count)
  frame : ∀ a, a < heap.chunks + first * params.chunkSize ∨
      heap.chunks + first * params.chunkSize + count * params.chunkSize ≤ a →
    a < heap.bitmap.data ∨ heap.bitmap.data + heap.bitmap.sizeInBytes ≤ a → memory' a = memory a

section Written

variable {first count : ℕ} {value : Bool}

/-- The bits are set between two changes of the block. -/
theorem written_of_writes {memory₁ memory₂ : Memory}
    (hdata : self.chunks + first * params.chunkSize + count * params.chunkSize ≤ self.bitmap.data)
    (hend : first + count ≤ self.bitmap.size)
    (hbefore : ∀ a, a < self.chunks + first * params.chunkSize ∨
      self.chunks + first * params.chunkSize + count * params.chunkSize ≤ a → memory₁ a = memory a)
    (hwrites : self.bitmap.Writes value (fun i => first ≤ i ∧ i < first + count) memory₁ memory₂)
    (hafter : ∀ a, a < self.chunks + first * params.chunkSize ∨
      self.chunks + first * params.chunkSize + count * params.chunkSize ≤ a → memory' a = memory₂ a) :
    Written params self first count value memory memory' := by
  have hbits₁ : self.bitmap.setBits memory₁ = _ := BitmapView.setBits_congr fun i _ =>
    BitmapView.bit_congr (fun a ha => hbefore a (Or.inr (hdata.trans ha))) i
  have hbits₂ : self.bitmap.setBits memory' = _ := BitmapView.setBits_congr fun i _ =>
    BitmapView.bit_congr (fun a ha => hafter a (Or.inr (hdata.trans ha))) i
  have hIco := hwrites.congr (q := (· ∈ Finset.Ico first (first + count)))
    fun _ => mem_Ico.symm
  refine ⟨?_, ?_⟩
  · rw [hbits₂, ← hbits₁]
    cases value with
    | true => exact hIco.setBits_true fun i hi => (mem_Ico.mp hi).2.trans_le hend
    | false => exact hIco.setBits_false
  · intro a hblock hbitmap
    rw [hafter a hblock, ← hbefore a hblock]
    rcases hbitmap with hbitmap | hbitmap
    · exact hwrites.outside a hbitmap
    · exact hwrites.behind (fun i hi => hi.2.trans_le hend) hbitmap

/-- Other blocks keep their header. -/
theorem Written.allocationSizeInChunks_eq (hw : Written params self first count value memory memory')
    (h : Inv params self memory live) (hcount : 0 < count)
    (hdisjoint : Disjoint (Finset.Ico first (first + count)) (self.block params memory ptr))
    (hptr : ptr ∈ live) : allocationSizeInChunks memory' ptr = allocationSizeInChunks memory ptr := by
  refine allocationSizeInChunks_congr (h.ptr_eq hptr) fun a hlow hhigh => ?_
  obtain ⟨hblock, hbitmap⟩ := h.header_outside hcount hdisjoint hptr hlow hhigh
  exact hw.frame a hblock (Or.inl hbitmap)

/-- The invariant after a block was allocated. -/
theorem Inv.cons (h : Inv params self memory live)
    (hunset : self.bitmap.UnsetRange memory 0 first count)
    (hheader : headerSize ≤ count * params.chunkSize)
    (hptr : ptr = self.chunks + first * params.chunkSize + headerSize)
    (hw : Written params self first count true memory memory')
    (hcount : allocationSizeInChunks memory' ptr = count) :
    Inv params { self with allocatedChunks := self.allocatedChunks + count } memory' (ptr :: live) := by
  have hpos := pos_of_headerSize_le hheader
  have hfirst : self.firstChunk params ptr = first := by rw [hptr, firstChunk_eq]
  have hnew : self.block params memory' ptr = Finset.Ico first (first + count) := by
    rw [block, hfirst, hcount]
  have hfree : Disjoint (self.bitmap.setBits memory) (Finset.Ico first (first + count)) := by
    refine disjoint_left.mpr fun i hi hi' => ?_
    obtain ⟨hlow, hhigh⟩ := mem_Ico.mp hi'
    simp [hunset.unset i hlow hhigh] at hi
  have hold : ∀ p ∈ live, allocationSizeInChunks memory' p = allocationSizeInChunks memory p :=
    fun p hp => hw.allocationSizeInChunks_eq h hpos
      (hfree.symm.mono_right (h.block_subset hp)) hp
  have hsetBits : self.bitmap.setBits memory' =
      (self.bitmap.setBits memory).disjUnion (Finset.Ico first (first + count)) hfree := by
    rw [hw.setBits, if_pos rfl, disjUnion_eq_union]
  refine ⟨?_, ?_, h.bitmap_eq, h.end_le, h.size_lt, List.forall_mem_cons.mpr ⟨⟨?_, ?_⟩, ?_⟩⟩
  · change (self.bitmap.setBits memory').val =
      Multiset.bind ↑(ptr :: live) fun p => (self.block params memory' p).val
    rw [hsetBits, ← Multiset.cons_coe, Multiset.cons_bind, hnew]
    exact (add_comm _ _).trans
      (congrArg (_ + ·) (h.setBits_eq.trans (blocks_congr self hold).symm))
  · change self.allocatedChunks + count = (self.bitmap.setBits memory').card
    rw [hsetBits, card_disjUnion, h.allocatedChunks, card_Ico, Nat.add_sub_cancel_left]
  · change ptr = self.chunks + self.firstChunk params ptr * params.chunkSize + headerSize
    rw [hfirst, hptr]
  · rwa [hcount]
  · exact fun p hp => ⟨(h.ok p hp).ptr_eq, ((h.ok p hp).congr (hold p hp)).headerSize_le⟩

/-- The invariant after a block was deallocated. -/
theorem Inv.erase (h : Inv params self memory live) (hptr : ptr ∈ live)
    (hw : Written params self (self.firstChunk params ptr) (allocationSizeInChunks memory ptr) false
      memory memory') :
    Inv params
      { self with allocatedChunks := self.allocatedChunks - allocationSizeInChunks memory ptr } memory'
      (live.erase ptr) := by
  have hpos := h.allocationSizeInChunks_pos hptr
  have hmem : ∀ p ∈ live.erase ptr, p ∈ live ∧ p ≠ ptr := fun p hp =>
    ((h.nodup.mem_erase_iff).mp hp).symm
  have hold : ∀ p ∈ live.erase ptr,
      allocationSizeInChunks memory' p = allocationSizeInChunks memory p := by
    intro p hp
    obtain ⟨hp, hne⟩ := hmem p hp
    exact hw.allocationSizeInChunks_eq h hpos (h.disjoint_of_ne hptr hp hne.symm) hp
  have hsetBits : self.bitmap.setBits memory' =
      self.bitmap.setBits memory \ self.block params memory ptr := by
    rw [hw.setBits, if_neg Bool.false_ne_true, block]
  have hblocks : self.blocks params memory live =
      (self.block params memory ptr).val + self.blocks params memory (live.erase ptr) := by
    rw [blocks, Multiset.coe_eq_coe.mpr (List.perm_cons_erase hptr), ← Multiset.cons_coe,
      Multiset.cons_bind, blocks]
  refine ⟨?_, ?_, h.bitmap_eq, h.end_le, h.size_lt, fun p hp => ?_⟩
  · change (self.bitmap.setBits memory').val = self.blocks params memory' (live.erase ptr)
    rw [hsetBits, sdiff_val, h.setBits_eq, hblocks, add_tsub_cancel_left, blocks_congr self hold]
  · change self.allocatedChunks - _ = (self.bitmap.setBits memory').card
    rw [hsetBits, card_sdiff_of_subset (h.block_subset hptr), h.allocatedChunks, block,
      card_Ico, Nat.add_sub_cancel_left]
  · have hok := (h.ok p (hmem p hp).1).congr (hold p hp)
    exact ⟨hok.ptr_eq, hok.headerSize_le⟩

end Written

/-! ## The functions -/

/-- Chunks that are not allocated can be made a block. -/
theorem Inv.allocateAt (h : Inv params self memory live) {first count : ℕ}
    (hunset : self.bitmap.UnsetRange memory 0 first count)
    (hheader : headerSize ≤ count * params.chunkSize)
    (hptr : ptr = self.chunks + first * params.chunkSize + headerSize) :
    ∃ memory', self.allocateAt params memory first count =
        some (ptr, { self with allocatedChunks := self.allocatedChunks + count }, memory') ∧
      Inv params { self with allocatedChunks := self.allocatedChunks + count } memory'
        (ptr :: live) ∧
      allocationSizeInChunks memory' ptr = count ∧
      Written params self first count true memory memory' := by
  obtain ⟨start, hstart⟩ : ∃ start, start = self.chunks + first * params.chunkSize := ⟨_, rfl⟩
  rw [← hstart] at hptr
  have hcount := pos_of_headerSize_le hheader
  have hend := hunset.end_le
  have hsize := h.size_eq
  have htotal := h.totalChunks_lt
  have hdataEq := h.data_eq
  have hdata : start + count * params.chunkSize ≤ self.bitmap.data := by
    have := Nat.mul_le_mul_right params.chunkSize (hsize ▸ hend)
    rw [Nat.add_mul] at this
    omega
  -- The header is stored, the bits are set, and the block is scrubbed.
  obtain ⟨memory₁, hmemory₁⟩ : ∃ memory₁, memory₁ = memory.store32 start (BitVec.ofNat 32 count) :=
    ⟨_, rfl⟩
  have hsame₁ : ∀ a, a < start ∨ start + count * params.chunkSize ≤ a → memory₁ a = memory a := by
    intro a ha
    rw [hmemory₁]
    exact if_neg (by simp only [headerSize] at hheader; omega)
  obtain ⟨memory₂, hset⟩ : ∃ memory₂,
      self.bitmap.setRange true true memory₁ first count = some memory₂ := by
    refine (BitmapView.exists_setRange_iff (by omega)).mpr ⟨by omega, hend, ?_⟩
    intro _ i hi hi' _
    rw [BitmapView.bit_congr fun a ha => hsame₁ a (Or.inr (hdata.trans ha)), hunset.unset i hi hi']
    rfl
  obtain ⟨-, -, hwrites⟩ := BitmapView.setRange_writes (by omega) hset
  obtain ⟨memory₃, hmemory₃⟩ : ∃ memory₃, memory₃ = scrub params.scrubByteAlloc memory₂ ptr
    ((count * params.chunkSize + 2 ^ 32 - headerSize) % 2 ^ 32) := ⟨_, rfl⟩
  have hsame₃ : ∀ a, a < ptr ∨ start + count * params.chunkSize ≤ a → memory₃ a = memory₂ a := by
    intro a ha
    rw [hmemory₃]
    apply scrub_of_outside
    omega
  have hw : Written params self first count true memory memory₃ := by
    rw [hstart] at hdata hsame₁ hsame₃
    exact written_of_writes hdata hend hsame₁ hwrites fun a ha => hsame₃ a (by omega)
  have hcountEq : allocationSizeInChunks memory₃ ptr = count := by
    have hload : memory₃.load32 start = memory₁.load32 start := by
      refine Memory.load32_congr fun a hlow hhigh => ?_
      rw [hsame₃ a (Or.inl (by simp only [headerSize] at hptr; omega)),
        hwrites.outside a (by simp only [headerSize] at hheader; omega)]
    rw [allocationSizeInChunks, show ptr - headerSize = start by omega, hload, hmemory₁,
      Memory.load32_store32, BitVec.toNat_ofNat, mod_eq_of_lt (by omega)]
  have hI := h.cons hunset hheader (hstart ▸ hptr) hw hcountEq
  have hallocated : self.allocatedChunks + count ≤ self.totalChunks := hI.allocatedChunks_le
  refine ⟨memory₃, ?_, hI, hcountEq, hw⟩
  simp only [Heap.allocateAt, ← hstart, ← hmemory₁, hset, bind_eq_bind, bind_some,
    Option.pure_def, mod_eq_of_lt (hallocated.trans_lt htotal), ← hptr, hmemory₃]

/-- A request that does not overflow needs enough chunks. -/
theorem le_chunksNeeded_mul {size : ℕ} (h : size + headerSize + params.chunkSize ≤ 2 ^ 32) :
    size + headerSize ≤ chunksNeeded params size * params.chunkSize := by
  have hpos := params.chunkSize_pos
  rw [chunksNeeded, mod_eq_of_lt (show size + headerSize < 2 ^ 32 by omega),
    mod_eq_of_lt (show size + headerSize + params.chunkSize - 1 < 2 ^ 32 by omega)]
  have hdiv := div_add_mod (size + headerSize + params.chunkSize - 1) params.chunkSize
  have hmod := mod_lt (size + headerSize + params.chunkSize - 1) hpos
  rw [Nat.mul_comm] at hdiv
  omega

/-- The search returns, and if it returns chunks, they are not allocated. -/
theorem findChunks_spec (self : Heap) (memory : Memory) {count : ℕ} (hcount : 0 < count) :
    ∃ result, self.findChunks memory count = some result ∧
      ∀ first, result = some first → self.bitmap.UnsetRange memory 0 first count := by
  unfold findChunks
  split
  next =>
    obtain ⟨result, hfind, hfirst⟩ := self.bitmap.findFirstFit_spec memory hcount
    refine ⟨result, hfind, ?_⟩
    rintro first rfl
    exact hfirst.1
  next hbest =>
    exact self.bitmap.findBestFit_spec memory (by simp only [bestFitThreshold] at hbest; omega) le_rfl

/-- `allocate` finds no chunks for a request. -/
def NoRoom (params : HeapParameters) (self : Heap) (memory : Memory) (size : ℕ) : Prop :=
  self.freeChunks < chunksNeeded params size ∨
    self.findChunks memory (chunksNeeded params size) = some none
deriving Decidable

theorem allocate_of_noRoom {size : ℕ} (h : NoRoom params self memory size) :
    self.allocate params memory size = some (none, self, memory) := by
  unfold allocate
  split
  next => rfl
  next hfree => rw [h.resolve_left hfree]

/-- A request that has room for its header returns a new block, or `nullptr` if there is no room. -/
theorem Inv.allocate (h : Inv params self memory live) {size : ℕ}
    (hheader : headerSize ≤ chunksNeeded params size * params.chunkSize) :
    (NoRoom params self memory size ∧
      self.allocate params memory size = some (none, self, memory)) ∨
    ∃ ptr first memory', ptr = self.chunks + first * params.chunkSize + headerSize ∧
      self.allocate params memory size = some (some ptr,
        { self with allocatedChunks := self.allocatedChunks + chunksNeeded params size }, memory') ∧
      Inv params { self with allocatedChunks := self.allocatedChunks + chunksNeeded params size }
        memory' (ptr :: live) ∧
      allocationSizeInChunks memory' ptr = chunksNeeded params size ∧
      Written params self first (chunksNeeded params size) true memory memory' := by
  by_cases hroom : NoRoom params self memory size
  · exact Or.inl ⟨hroom, allocate_of_noRoom hroom⟩
  · right
    obtain ⟨hfree, hfind⟩ := not_or.mp hroom
    obtain ⟨result, hresult, hunset⟩ := self.findChunks_spec memory (pos_of_headerSize_le hheader)
    cases result with
    | none => exact absurd hresult hfind
    | some first =>
      obtain ⟨memory', hallocate, hI, hcount, hw⟩ := h.allocateAt (hunset first rfl) hheader rfl
      refine ⟨_, first, memory', rfl, ?_, hI, hcount, hw⟩
      rw [Heap.allocate, if_neg hfree]
      simp [hresult, hallocate]

/-- A pointer that is below the end of the heap can be deallocated. -/
theorem Inv.deallocate (h : Inv params self memory live) (hptr : ptr ∈ live)
    (hlt : ptr < self.chunks + self.totalChunks * params.chunkSize) :
    ∃ memory', self.deallocate params memory ptr = some
        ({ self with allocatedChunks := self.allocatedChunks - allocationSizeInChunks memory ptr },
          memory') ∧
      Inv params
        { self with allocatedChunks := self.allocatedChunks - allocationSizeInChunks memory ptr }
        memory' (live.erase ptr) ∧
      Written params self (self.firstChunk params ptr) (allocationSizeInChunks memory ptr) false
        memory memory' := by
  have hptrEq := h.ptr_eq hptr
  have hpos := h.allocationSizeInChunks_pos hptr
  have hinside := h.inside hptr
  have hsize := h.size_eq
  have hdata := h.end_block_le hptr
  have hdataEq := h.data_eq
  have hend := h.end_le
  have htotal := h.totalChunks_lt
  have hbit : ∀ i, self.firstChunk params ptr ≤ i →
      i < self.firstChunk params ptr + allocationSizeInChunks memory ptr →
        self.bitmap.bit memory i = true := fun i hlow hhigh =>
    (BitmapView.mem_setBits.mp (h.block_subset hptr (mem_Ico.mpr ⟨hlow, hhigh⟩))).2
  -- The bits are cleared, and the block is scrubbed.
  obtain ⟨memory₁, hset⟩ : ∃ memory₁, self.bitmap.setRange false true memory
      (self.firstChunk params ptr) (allocationSizeInChunks memory ptr) = some memory₁ := by
    refine (BitmapView.exists_setRange_iff (by omega)).mpr ⟨by omega, by omega, ?_⟩
    intro _ i hlow hhigh _
    rw [hbit i hlow hhigh]
    rfl
  obtain ⟨-, -, hwrites⟩ := BitmapView.setRange_writes (by omega) hset
  have hsame : allocationSizeInChunks memory₁ ptr = allocationSizeInChunks memory ptr :=
    allocationSizeInChunks_congr hptrEq fun a _ hhigh => hwrites.outside a (by omega)
  obtain ⟨memory₂, hmemory₂⟩ : ∃ memory₂, memory₂ = scrub params.scrubByteFree memory₁
    (ptr - headerSize) (allocationSizeInChunks memory ptr * params.chunkSize % 2 ^ 32) := ⟨_, rfl⟩
  have hw : Written params self (self.firstChunk params ptr) (allocationSizeInChunks memory ptr) false
      memory memory₂ := by
    refine written_of_writes hdata (by omega) (fun _ _ => rfl) hwrites fun a ha => ?_
    rw [hmemory₂]
    apply scrub_of_outside
    omega
  have hI := h.erase hptr hw
  have hallocated := h.allocationSizeInChunks_le hptr
  refine ⟨memory₂, ?_, hI, hw⟩
  have hget : self.bitmap.get memory (self.firstChunk params ptr) = some true := by
    simp [BitmapView.get, hbit _ le_rfl (by omega), verify, show
      self.firstChunk params ptr < self.bitmap.size by omega]
  have hmod : (ptr - headerSize + allocationSizeInChunks memory ptr * params.chunkSize) % 2 ^ 32 ≤
      self.chunks + self.totalChunks * params.chunkSize :=
    (mod_le _ _).trans (by omega)
  rw [firstChunk] at hget hset
  simp only [Heap.deallocate, verify, show self.chunks ≤ ptr - headerSize by omega, hlt, and_self,
    if_true, bind_eq_bind, bind_some, hget, hmod, hset, hsame, ge_iff_le, hallocated,
    Option.pure_def, hmemory₂]

/-! ## Runs -/

/-- A heap, the memory, and the pointers that are allocated. -/
structure System where
  heap : Heap
  memory : Memory
  live : List ℕ

/-- What can happen next. -/
inductive Event where
  | allocate (size : ℕ)
  | deallocate (ptr : ℕ)
  /-- The owner of a block writes a byte of it. -/
  | write (ptr offset : ℕ) (byte : BitVec 8)

namespace System

variable (params)

/-- One step. Only pointers that are allocated are deallocated and written to. -/
def step (s : System) : Event → Option System
  | .allocate size => do
    let (result, heap, memory) ← s.heap.allocate params s.memory size
    return { heap := heap, memory := memory, live := result.toList ++ s.live }
  | .deallocate ptr =>
    if ptr ∈ s.live then do
      let (heap, memory) ← s.heap.deallocate params s.memory ptr
      return { heap := heap, memory := memory, live := s.live.erase ptr }
    else some s
  | .write ptr offset byte =>
    if ptr ∈ s.live ∧
        headerSize + offset < allocationSizeInChunks s.memory ptr * params.chunkSize then
      some { s with memory := s.memory.store (ptr + offset) byte }
    else some s

/-- The condition on a step: the request does not overflow, and if it is for nothing, the header does
not fill its chunks. -/
def StepOk (_ : System) : Event → Prop
  | .allocate size =>
    size + headerSize + params.chunkSize ≤ 2 ^ 32 ∧ (size = 0 → ¬ params.chunkSize ∣ headerSize)
  | _ => True

instance decidableStepOk (s : System) :
    (event : Event) → Decidable (StepOk params s event)
  | .allocate size => inferInstanceAs (Decidable (size + headerSize + params.chunkSize ≤ 2 ^ 32 ∧
      (size = 0 → ¬ params.chunkSize ∣ headerSize)))
  | .deallocate _ | .write .. => isTrue trivial

variable {params}
/-- The invariant of the runs whose steps meet the condition: every pointer is below the end of the
heap, as `deallocate` asserts. -/
structure RunInv (params : HeapParameters) (s : System) : Prop
    extends Heap.Inv params s.heap s.memory s.live where
  lt_end : ∀ ptr ∈ s.live, ptr < s.heap.chunks + s.heap.totalChunks * params.chunkSize

variable {params : HeapParameters} {s : System}

/-- A block has more than its header if the request is not for nothing, or the header does not fill its
chunks. -/
theorem headerSize_lt_chunksNeeded_mul {size : ℕ}
    (h : size + headerSize + params.chunkSize ≤ 2 ^ 32)
    (hzero : size = 0 → ¬ params.chunkSize ∣ headerSize) :
    headerSize < chunksNeeded params size * params.chunkSize := by
  have hle := le_chunksNeeded_mul h
  by_cases hsize : size = 0
  · have hne : headerSize ≠ chunksNeeded params size * params.chunkSize := fun heq =>
      hzero hsize ⟨chunksNeeded params size, by rw [heq, Nat.mul_comm]⟩
    omega
  · omega

/-- Every step that meets the condition completes and keeps the invariant. -/
theorem step_spec (h : RunInv params s) (event : Event) (hok : StepOk params s event) :
    ∃ s', s.step params event = some s' ∧ RunInv params s' := by
  cases event with
  | allocate size =>
    have hlt := headerSize_lt_chunksNeeded_mul hok.1 hok.2
    rcases h.toInv.allocate hlt.le with ⟨-, hallocate⟩ |
      ⟨ptr, first, memory', hptr, hallocate, hI, hcount, hw⟩
    · exact ⟨s, by simp [step, hallocate], h⟩
    · refine ⟨⟨_, memory', ptr :: s.live⟩, by simp [step, hallocate], hI, ?_⟩
      intro p hp
      rcases List.mem_cons.mp hp with rfl | hp
      · exact hI.lt_end List.mem_cons_self (hcount ▸ hlt)
      · exact h.lt_end p hp
  | deallocate ptr =>
    by_cases hptr : ptr ∈ s.live
    · obtain ⟨memory', hdeallocate, hI, -⟩ := h.toInv.deallocate hptr (h.lt_end ptr hptr)
      refine ⟨⟨_, memory', s.live.erase ptr⟩, by simp [step, hptr, hdeallocate], hI, ?_⟩
      intro p hp
      exact h.lt_end p (List.mem_of_mem_erase hp)
    · exact ⟨s, if_neg hptr, h⟩
  | write ptr offset byte =>
    by_cases hwrite : ptr ∈ s.live ∧
        headerSize + offset < allocationSizeInChunks s.memory ptr * params.chunkSize
    · obtain ⟨hptr, hoffset⟩ := hwrite
      refine ⟨_, if_pos ⟨hptr, hoffset⟩, h.toInv.write hptr fun a ha => ?_, h.lt_end⟩
      have := h.ptr_eq hptr
      exact Memory.store_of_ne (by omega)
    · exact ⟨s, if_neg hwrite, h⟩

/-- A heap that has just been constructed over memory whose bitmap is clear. -/
structure Fresh (params : HeapParameters) (s : System) : Prop where
  created : ∃ memory memorySize, create params memory memorySize = some s.heap ∧
    memory + memorySize ≤ 2 ^ 32 ∧ memorySize < 2 ^ 32
  clear : ∀ i < s.heap.totalChunks, s.heap.bitmap.bit s.memory i = false
  live : s.live = []

theorem runInv_of_fresh (h : Fresh params s) : RunInv params s := by
  obtain ⟨heap, memory, live⟩ := s
  obtain ⟨⟨start, memorySize, hcreate, hend, hsize⟩, hclear, rfl⟩ := h
  obtain rfl := some.inj ((create_eq _ _).symm.trans hcreate)
  have hempty := filter_eq_empty_iff.mpr fun i hi =>
    Bool.eq_false_iff.mp (hclear i (mem_range.mp hi))
  refine ⟨⟨congrArg Finset.val hempty, (congrArg Finset.card hempty).symm, rfl, ?_,
    (div_mul_le_self _ _).trans_lt hsize, by simp⟩, by simp⟩
  have := calculateChunks_fits params memorySize
  simp only
  omega

/-- **The heap.** For every chunk size and memory, in every run whose requests meet the condition, no
assertion fails and the heap is consistent in every state. -/
theorem consistent_of_meets (h : Fresh params s) (events : List Event)
    (hmeets : Meets (step params) (StepOk params) s events) :
    Safe (step params) (fun s => Consistent params s.heap s.memory s.live) s events :=
  safe_of_meets (fun _ hI => hI.consistent) (fun _ event hI hok => step_spec hI event hok)
    (runInv_of_fresh h) hmeets

/-- The parameters of the heap of `kmalloc`. -/
def kmallocHeap : HeapParameters := ⟨32, 0xbb, 0xaa, by decide, by decide⟩

/-- A heap over memory that is clear. -/
def clearHeap (params : HeapParameters) (memorySize : ℕ) : System where
  heap := (create params 4096 memorySize).getD ⟨0, 0, 0, ⟨0, 0⟩⟩
  memory := fun _ => 0
  live := []

/-- Two blocks are allocated, and one of them is written to and deallocated. -/
theorem consistent_of_meets_two_blocks :
    Safe (step kmallocHeap) (fun s => Consistent kmallocHeap s.heap s.memory s.live)
      (clearHeap kmallocHeap 99)
      [.allocate 10, .allocate 20, .write 4100 5 7, .deallocate 4100, .allocate 28] :=
  consistent_of_meets ⟨⟨4096, 99, rfl, by decide, by decide⟩, by decide, rfl⟩ _
    (meets_of_forall (by simp [StepOk, kmallocHeap, headerSize]))

/-- With chunks of four bytes, a block for a request of nothing is only its header. If it is the last
one, `deallocate` does not accept its pointer. -/
theorem deallocate_header_at_end_panics :
    run (step ⟨4, 0, 0, by decide, by decide⟩) (clearHeap ⟨4, 0, 0, by decide, by decide⟩ 5)
      [.allocate 0, .deallocate 4100] = none :=
  isNone_iff_eq_none.mp (by decide +kernel)

end System

end Heap

end Kernel
