import PranaOS.Kernel.VM.RangeAllocator
import PranaOS.Kernel.VM.Region

/-!
# `Kernel/VM/Space`

The address space of a process: its regions and the allocator of its page directory.

`m_regions` is a red-black tree keyed by the base address. Here it is the list of its values in
key order. `find_region_from_range` has a one-entry cache with a weak pointer to the region; a
weak pointer is the `id` of a region, and it is null as soon as no region of the list has that
`id`.
-/

namespace Kernel

open AK List Option

/-- `page_round_up_would_wrap`. -/
def pageRoundUpWouldWrap (x : ℕ) : Bool := decide (x > 0xfffff000)

/-- `page_round_up`. Masking with `~(PAGE_SIZE - 1)` rounds down to a multiple of the page size. -/
def pageRoundUp (x : ℕ) : Option ℕ := do
  let rounded := (x + pageSize - 1) % 2 ^ 32 / pageSize * pageSize
  verify (x = 0 ∨ rounded ≠ 0)
  return rounded

theorem pageRoundUp_eq_some {x y : ℕ} (hx : x ≤ 0xfffff000) (h : pageRoundUp x = some y) :
    y = (x + 4095) / 4096 * 4096 := by
  simp only [pageRoundUp, verify_bind_eq_some] at h
  obtain ⟨-, ⟨⟩⟩ := h
  have hpage : pageSize = 4096 := rfl
  rw [Nat.mod_eq_of_lt (by omega), hpage]
  rfl

/-- `VirtualAddress::page_base`, and masking with `PAGE_MASK`. -/
def pageBase (address : ℕ) : ℕ := address / pageSize * pageSize

/-- `Space::RegionLookupCache`. -/
structure RegionLookupCache where
  range : Option Range
  region : Option ℕ
deriving DecidableEq, Repr

/-- `class Space`. `nextId` is the address of the next region object. -/
structure Space where
  rangeAllocator : RangeAllocator
  regions : List Region
  regionLookupCache : RegionLookupCache
  nextId : ℕ
deriving DecidableEq, Repr

namespace Space

/-- `userspace_range_base`. -/
def userspaceRangeBase : ℕ := 0x00800000

/-- `userspace_range_ceiling`. -/
def userspaceRangeCeiling : ℕ := 0xbe000000

/-- `Space::create` without a parent. The page directory draws `random` to shift the base of its
range allocator by up to 31 MiB. -/
def create (random : UInt8) : Space :=
  let randomOffset := pageBase (random.toNat % 32 * 0x100000)
  let base := userspaceRangeBase + randomOffset
  { rangeAllocator := .initializeWithRange base (userspaceRangeCeiling - base)
    regions := []
    regionLookupCache := ⟨none, none⟩
    nextId := 0 }

variable (self : Space)

/-- Replace the range allocator of the page directory. -/
def withAllocator : Option Range × RangeAllocator → Option Range × Space
  | (range, rangeAllocator) => (range, { self with rangeAllocator })

/-- `allocate_range`. -/
def allocateRange (vaddr size alignment : ℕ) : Option (Option Range × Space) := do
  let vaddr := pageBase vaddr
  let size ← pageRoundUp size
  if vaddr = 0 then
    return self.withAllocator (← self.rangeAllocator.allocateAnywhere size alignment)
  else
    return self.withAllocator (← self.rangeAllocator.allocateSpecific vaddr size)

/-- Insertion into the tree of regions. -/
def insertRegion (region : Region) : List Region → List Region
  | [] => [region]
  | r :: rest =>
    if region.range.base < r.range.base then region :: r :: rest
    else r :: insertRegion region rest

/-- `add_region`. -/
def addRegion (region : Region) : Space :=
  { self with regions := insertRegion region self.regions, nextId := self.nextId + 1 }

/-- Change a region of the tree through a pointer to it. -/
def updateRegion (id : ℕ) (f : Region → Region) : Space :=
  { self with regions := self.regions.map fun region => if region.id = id then f region else region }

/-- `Region::map` for regions of the tree. Whether the page tables could be filled is not part of
the state; the page directory is set in any case. -/
def mapRegions (ids : List ℕ) : Space :=
  { self with regions := self.regions.map fun region =>
      if region.id ∈ ids then { region with mapped := true } else region }

/-- `allocate_split_region`. -/
def allocateSplitRegion (sourceRegion : Region) (range : Range)
    (offsetInVMObject : ℕ) : Option (Region × Space) := do
  let region ← Region.createUserAccessible self.nextId range sourceRegion.vmobject offsetInVMObject
    sourceRegion.access sourceRegion.cacheable sourceRegion.shared
  let region := { region with
    syscallRegion := sourceRegion.syscallRegion
    mmap := sourceRegion.mmap
    stack := sourceRegion.stack }
  return (region, self.addRegion region)

/-- The loop of `split_region_around_range` over the ranges that remain. -/
def splitRegionLoop (sourceRegion : Region) :
    List Range → Space → Option (List ℕ × Space)
  | [], self => some ([], self)
  | newRange :: rest, self => do
    verify (sourceRegion.range.contains newRange)
    let offset := (sourceRegion.offsetInVMObject + (newRange.base - sourceRegion.range.base)) % 2 ^ 32
    let (region, self) ← self.allocateSplitRegion sourceRegion newRange offset
    let (ids, self) ← splitRegionLoop sourceRegion rest self
    return (region.id :: ids, self)

/-- `split_region_around_range`: the regions on either side of `desiredRange`. -/
def splitRegionAroundRange (sourceRegion : Region) (desiredRange : Range) :
    Option (List ℕ × Space) := do
  let remainingRanges ← sourceRegion.range.carve desiredRange
  verify (remainingRanges ≠ [])
  splitRegionLoop sourceRegion remainingRanges self

/-- `m_regions.find(key)`. -/
def findRegion (key : ℕ) : Option Region :=
  self.regions.find? fun region => region.range.base = key

/-- `take_region`. -/
def takeRegion (region : Region) : Option Region × Space :=
  let cache := self.regionLookupCache
  let self := { self with regionLookupCache :=
    if cache.region = some region.id then ⟨cache.range, none⟩ else cache }
  match self.findRegion region.range.base with
  | none => (none, self)
  | some found =>
    if found.id ≠ region.id then (none, self)
    else (some found, { self with regions := self.regions.eraseP fun r =>
      r.range.base = region.range.base })

/-- `~Region` and `Region::unmap(ShouldDeallocateVirtualMemoryRange::Yes)`: a region that is still
mapped gives its range back. The identity allocator of a user page directory is empty, so giving a
range back to it is a failed `VERIFY`. -/
def destroyRegion (region : Region) : Option Space :=
  if region.mapped then
    if self.rangeAllocator.totalRange.contains region.range then do
      let rangeAllocator ← self.rangeAllocator.deallocate region.range
      return { self with rangeAllocator }
    else none
  else some self

/-- `deallocate_region`: the region that was taken is destroyed at once. -/
def deallocateRegion (region : Region) : Option (Bool × Space) :=
  match self.takeRegion region with
  | (none, self) => some (false, self)
  | (some region, self) => do return (true, ← self.destroyRegion region)

/-- `find_region_from_range`. -/
def findRegionFromRange (range : Range) : Option (Option Region × Space) := do
  let cached : Option Region :=
    if self.regionLookupCache.range = some range then
      self.regions.find? fun region => self.regionLookupCache.region = some region.id
    else none
  match cached with
  | some region => return (some region, self)
  | none =>
    match self.findRegion range.base with
    | none => return (none, self)
    | some region =>
      let size ← pageRoundUp range.size
      if region.range.size ≠ size then return (none, self)
      return (some region, { self with regionLookupCache := ⟨some range, some region.id⟩ })

/-- `m_regions.find_largest_not_above(key)`. -/
def findLargestNotAbove (key : ℕ) : Option Region :=
  (self.regions.filter fun region => region.range.base ≤ key).getLast?

/-- `find_region_containing`. -/
def findRegionContaining (range : Range) : Option Region :=
  match self.findLargestNotAbove range.base with
  | none => none
  | some candidate => if candidate.range.contains range then some candidate else none

/-- The loop of `find_regions_intersecting` over the regions from the candidate on. -/
def findRegionsIntersectingLoop (range : Range) : List Region → ℕ → Option (List Region)
  | [], _ => some []
  | region :: rest, totalSizeCollected =>
    if region.range.base < range.endAddr ∧ region.range.endAddr > range.base then do
      let common ← region.range.intersect range
      let totalSizeCollected := (totalSizeCollected + (region.range.size - common.size)) % 2 ^ 32
      if totalSizeCollected = range.size then return [region]
      return region :: (← findRegionsIntersectingLoop range rest totalSizeCollected)
    else findRegionsIntersectingLoop range rest totalSizeCollected

/-- `find_regions_intersecting`. Nothing is found if no region starts at or below the range. -/
def findRegionsIntersecting (range : Range) : Option (List Region) :=
  match self.findLargestNotAbove range.base with
  | none => some []
  | some found =>
    findRegionsIntersectingLoop range
      (self.regions.dropWhile fun region => region.range.base ≠ found.range.base) 0

/-! ## What the functions do to the tree -/

/-- The regions are listed in the order of their bases. -/
def Sorted (regions : List Region) : Prop :=
  regions.Pairwise fun a b => a.range.base ≤ b.range.base

/-- From `space` to `space'` the regions `removed` are taken away, and the regions `added` are created one
after the other. The range allocator may change. -/
def Exchanges (space : Space) (removed added : List Region) (space' : Space) : Prop :=
  (∃ kept, space.regions.Perm (removed ++ kept) ∧ space'.regions.Perm (added ++ kept)) ∧
    (Sorted space.regions → Sorted space'.regions) ∧
    space'.nextId = space.nextId + added.length ∧
    added.map Region.id = List.range' space.nextId added.length ∧
    (space'.regionLookupCache = space.regionLookupCache ∨ space'.regionLookupCache.region = none)

variable {self self' self'' : Space} {region : Region} {range : Range}
  {removed removed' added added' : List Region}

theorem insertRegion_perm (region : Region) (regions : List Region) :
    (insertRegion region regions).Perm (region :: regions) := by
  induction regions with
  | nil => exact .refl _
  | cons r rest ih =>
    rw [insertRegion]
    split
    · exact .refl _
    · exact (ih.cons r).trans (.swap region r rest)

theorem sorted_insertRegion {regions : List Region} (h : Sorted regions) :
    Sorted (insertRegion region regions) := by
  induction regions with
  | nil => exact pairwise_singleton _ _
  | cons r rest ih =>
    obtain ⟨hr, hrest⟩ := pairwise_cons.mp h
    rw [insertRegion]
    split
    next hlt =>
      refine pairwise_cons.mpr ⟨fun b hb => ?_, h⟩
      rcases mem_cons.mp hb with rfl | hb
      · exact hlt.le
      · exact hlt.le.trans (hr b hb)
    next hge =>
      refine pairwise_cons.mpr ⟨fun b hb => ?_, ih hrest⟩
      rcases mem_cons.mp ((insertRegion_perm region rest).mem_iff.mp hb) with rfl | hb
      · exact not_lt.mp hge
      · exact hr b hb

theorem Exchanges.refl (self : Space) : Exchanges self [] [] self :=
  ⟨⟨self.regions, .refl _, .refl _⟩, id, rfl, rfl, .inl rfl⟩

theorem addRegion_exchanges (hid : region.id = self.nextId) :
    Exchanges self [] [region] (self.addRegion region) :=
  ⟨⟨self.regions, .refl _, insertRegion_perm region self.regions⟩, sorted_insertRegion, rfl,
    by simp [hid], .inl rfl⟩

/-- Two exchanges in a row. The second one does not take away what the first one created. -/
theorem Exchanges.trans (h : Exchanges self removed added self')
    (h' : Exchanges self' removed' added' self'') (hkeep : added = [] ∨ removed' = []) :
    Exchanges self (removed ++ removed') (added ++ added') self'' := by
  obtain ⟨⟨kept, hold, hnew⟩, hsorted, hnext, hfresh, hcache⟩ := h
  obtain ⟨⟨kept', hold', hnew'⟩, hsorted', hnext', hfresh', hcache'⟩ := h'
  refine ⟨?_, fun h => hsorted' (hsorted h), ?_, ?_, ?_⟩
  · have hboth := hnew.symm.trans hold'
    rcases hkeep with rfl | rfl
    · exact ⟨kept', hold.trans (by simpa using hboth.append_left removed), hnew'⟩
    · refine ⟨kept, by simpa using hold, hnew'.trans ((hboth.symm.append_left added').trans ?_)⟩
      rw [← append_assoc]
      exact perm_append_comm.append_right _
  · rw [hnext', hnext, length_append, Nat.add_assoc]
  · rw [map_append, hfresh, hfresh', hnext, length_append, range'_append_1]
  · rcases hcache' with hcache' | hcache'
    · rwa [hcache']
    · exact .inr hcache'

/-- A region that is created in an exchange is new. -/
theorem Exchanges.le_id (h : Exchanges self removed added self') (hmem : region ∈ added) :
    self.nextId ≤ region.id := by
  have hrange := List.mem_map_of_mem (f := Region.id) hmem
  rw [h.2.2.2.1, mem_range'_1] at hrange
  exact hrange.1

theorem createUserAccessible_eq_some {id : ℕ} {vmobject : VMObject} {offset : ℕ}
    {access : BitVec 8} {cacheable shared : Bool}
    (h : Region.createUserAccessible id range vmobject offset access cacheable shared =
      some region) :
    region.id = id ∧ region.range = range ∧ 0 < range.size ∧
      region.access = Region.initialAccess access := by
  simp only [Region.createUserAccessible, verify_bind_eq_some] at h
  obtain ⟨-, hne, -, ⟨⟩⟩ := h
  exact ⟨rfl, rfl, Nat.pos_of_ne_zero hne, rfl⟩

/-- `allocate_split_region` adds one region over the range, with the flags of the source. -/
theorem allocateSplitRegion_eq_some {source : Region} {offset : ℕ}
    (h : self.allocateSplitRegion source range offset = some (region, self')) :
    region.range = range ∧ 0 < range.size ∧ region.access = Region.initialAccess source.access ∧
      Exchanges self [] [region] self' ∧ self'.rangeAllocator = self.rangeAllocator := by
  obtain ⟨created, hcreated, h⟩ := bind_eq_some_iff.mp h
  cases h
  obtain ⟨hid, hrange, hpos, haccess⟩ := createUserAccessible_eq_some hcreated
  exact ⟨hrange, hpos, haccess, addRegion_exchanges hid, rfl⟩

/-- Splitting adds one region for each of the ranges. -/
theorem splitRegionLoop_eq_some {source : Region} {ranges : List Range} {ids : List ℕ}
    (h : splitRegionLoop source ranges self = some (ids, self')) :
    ∃ added : List Region, added.map Region.range = ranges ∧ added.map Region.id = ids ∧
      (∀ r ∈ added, r.access = Region.initialAccess source.access) ∧
      Exchanges self [] added self' ∧ self'.rangeAllocator = self.rangeAllocator := by
  induction ranges generalizing self ids with
  | nil =>
    obtain ⟨⟨⟩⟩ := h
    exact ⟨[], rfl, rfl, by simp, .refl _, rfl⟩
  | cons range ranges ih =>
    rw [splitRegionLoop, verify_bind_eq_some] at h
    obtain ⟨-, h⟩ := h
    obtain ⟨⟨region, mid⟩, hregion, h⟩ := bind_eq_some_iff.mp h
    obtain ⟨⟨ids', last⟩, hrest, h⟩ := bind_eq_some_iff.mp h
    cases h
    obtain ⟨hrange, -, haccess, hexchange, halloc⟩ := allocateSplitRegion_eq_some hregion
    obtain ⟨added, hranges, hids, hflags, hexchange', halloc'⟩ := ih hrest
    exact ⟨region :: added, by simp [hrange, hranges], by simp [hids],
      forall_mem_cons.mpr ⟨haccess, hflags⟩, hexchange.trans hexchange' (.inr rfl),
      halloc'.trans halloc⟩

/-- Splitting a region around a range adds a region for each part that is left, with its flags. -/
theorem splitRegionAroundRange_eq_some {source : Region} {ids : List ℕ}
    (h : self.splitRegionAroundRange source range = some (ids, self')) :
    ∃ added : List Region, source.range.carve range = some (added.map Region.range) ∧
      added.map Region.id = ids ∧ (∀ r ∈ added, r.access = Region.initialAccess source.access) ∧
      Exchanges self [] added self' ∧ self'.rangeAllocator = self.rangeAllocator := by
  obtain ⟨parts, hparts, h⟩ := bind_eq_some_iff.mp h
  rw [verify_bind_eq_some] at h
  obtain ⟨added, rfl, hadded⟩ := splitRegionLoop_eq_some h.2
  exact ⟨added, hparts, hadded⟩

/-- Taking a region removes it from the tree, if no other one has its identity. -/
theorem takeRegion_eq_some {taken : Region}
    (hunique : ∀ r ∈ self.regions, r.id = region.id → r = region)
    (h : self.takeRegion region = (some taken, self')) :
    taken = region ∧ Exchanges self [region] [] self' ∧
      self'.rangeAllocator = self.rangeAllocator := by
  simp only [takeRegion] at h
  split at h
  next => simp at h
  next r hr =>
    split at h
    next => simp at h
    next hid =>
      cases h
      obtain rfl := hunique taken (mem_of_find?_eq_some hr) (not_not.mp hid)
      refine ⟨rfl, ⟨⟨_, ?_, .refl _⟩, fun hsorted => hsorted.sublist eraseP_sublist, rfl, rfl, ?_⟩,
        rfl⟩
      · obtain ⟨-, front, back, hsplit, hfront⟩ := find?_eq_some_iff_append.mp hr
        rw [hsplit, eraseP_append_right _ (by simpa using hfront), eraseP_cons_of_pos (by simp)]
        exact perm_middle
      · simp only
        split
        · exact .inr rfl
        · exact .inl rfl

/-! ## The identity of regions -/

/-- The regions are different objects, and a new one will be another. -/
def IdsOk (space : Space) : Prop :=
  (∀ region ∈ space.regions, region.id < space.nextId) ∧ (space.regions.map Region.id).Nodup

/-- Two regions with the same address are the same region. -/
theorem IdsOk.eq_of_id (h : self.IdsOk) {a : Region} (ha : a ∈ self.regions) (b : Region)
    (hb : b ∈ self.regions) (hid : b.id = a.id) : b = a :=
  inj_on_of_nodup_map h.2 hb ha hid

/-- Regions are taken away, and others are created. -/
theorem IdsOk.exchange (h : self.IdsOk) (hexchange : Exchanges self removed added self') :
    self'.IdsOk := by
  obtain ⟨⟨kept, hold, hnew⟩, -, hnext, hfresh, -⟩ := hexchange
  have hlt : ∀ id ∈ kept.map Region.id, id < self.nextId := by
    intro id hid
    obtain ⟨r, hr, rfl⟩ := List.mem_map.mp hid
    exact h.1 r (hold.mem_iff.mpr (mem_append_right _ hr))
  have hids := hnew.map Region.id
  rw [map_append, hfresh] at hids
  refine ⟨fun r hr => ?_, ?_⟩
  · rcases mem_append.mp (hids.mem_iff.mp (List.mem_map_of_mem hr)) with hr | hr
    · rw [hnext]
      exact (mem_range'_1.mp hr).2
    · have := hlt r.id hr
      omega
  · have hkept := (hold.map Region.id).nodup_iff.mp h.2
    rw [map_append] at hkept
    refine hids.nodup_iff.mpr (List.Nodup.append nodup_range' hkept.of_append_right
      fun id hnew hid => ?_)
    exact (hlt id hid).not_ge (mem_range'_1.mp hnew).1

/-- Changing regions does not matter as long as they keep their identity. -/
theorem IdsOk.map (h : self.IdsOk) {f : Region → Region} (hf : ∀ r, (f r).id = r.id) :
    IdsOk { self with regions := self.regions.map f } := by
  have hids : (self.regions.map f).map Region.id = self.regions.map Region.id := by
    rw [List.map_map]
    exact map_congr_left fun r _ => hf r
  refine ⟨fun r' hr' => ?_, hids ▸ h.2⟩
  obtain ⟨r, hr, rfl⟩ := List.mem_map.mp hr'
  rw [hf]
  exact h.1 r hr

/-- What mapping regions changes. -/
theorem mapRegions_keeps (ids : List ℕ) (r : Region) :
    (if r.id ∈ ids then { r with mapped := true } else r).id = r.id ∧
      (if r.id ∈ ids then { r with mapped := true } else r).range = r.range ∧
      (if r.id ∈ ids then { r with mapped := true } else r).access = r.access ∧
      (r.mapped = true ∨ r.id ∈ ids →
        (if r.id ∈ ids then { r with mapped := true } else r).mapped = true) := by
  split
  next => simp
  next hid => exact ⟨rfl, rfl, rfl, fun hr => hr.resolve_right hid⟩

/-- What setting the protection of a region does not change. -/
theorem setProt_keeps (id : ℕ) (prot : BitVec 32) (r : Region) :
    (if r.id = id then r.setProt prot else r).id = r.id ∧
      (if r.id = id then r.setProt prot else r).range = r.range ∧
      (if r.id = id then r.setProt prot else r).mapped = r.mapped := by
  split <;> simp

/-- A region that is mapped gives its range back when it is destroyed. -/
theorem destroyRegion_eq_some (h : self.destroyRegion region = some self') :
    (region.mapped = false ∧ self' = self) ∨ ∃ rangeAllocator,
      self.rangeAllocator.deallocate region.range = some rangeAllocator ∧
        self' = { self with rangeAllocator } := by
  rw [destroyRegion] at h
  split at h
  next =>
    split at h
    · obtain ⟨rangeAllocator, hgive, h⟩ := bind_eq_some_iff.mp h
      cases h
      exact .inr ⟨rangeAllocator, hgive, rfl⟩
    · cases h
  next hmapped =>
    cases h
    exact .inl ⟨Bool.eq_false_iff.mpr hmapped, rfl⟩

/-- A region that is deallocated is taken away, and it gives its range back if it is mapped. -/
theorem deallocateRegion_eq_some (hunique : ∀ r ∈ self.regions, r.id = region.id → r = region)
    (h : self.deallocateRegion region = some (true, self')) :
    ∃ mid, Exchanges self [region] [] mid ∧ mid.rangeAllocator = self.rangeAllocator ∧
      mid.destroyRegion region = some self' := by
  rw [deallocateRegion] at h
  split at h
  next => simp at h
  next taken mid htake =>
    obtain ⟨last, hdestroy, h⟩ := bind_eq_some_iff.mp h
    cases h
    obtain ⟨rfl, hexchange, halloc⟩ := takeRegion_eq_some hunique htake
    exact ⟨mid, hexchange, halloc, hdestroy⟩

theorem findRegionContaining_eq_some (h : self.findRegionContaining range = some region) :
    region ∈ self.regions ∧ region.range.contains range = true := by
  rw [findRegionContaining] at h
  split at h
  next => simp at h
  next candidate hcandidate =>
    split at h
    next hcontains =>
      obtain rfl := some.inj h
      exact ⟨(mem_filter.mp (mem_of_getLast? hcandidate)).1, hcontains⟩
    next => simp at h

/-- `find_region_from_range` finds nothing, or it finds a region of the tree, which the cache refers to
then: because it did so before, or because the region has the base and the size. -/
theorem findRegionFromRange_cases {found : Option Region}
    (h : self.findRegionFromRange range = some (found, self')) :
    (found = none ∧ self' = self) ∨
      ∃ region ∈ self.regions, found = some region ∧
        self' = { self with regionLookupCache := ⟨some range, some region.id⟩ } ∧
        (self' = self ∨
          region.range.base = range.base ∧ pageRoundUp range.size = some region.range.size) := by
  simp only [findRegionFromRange] at h
  split at h
  next region hcached =>
    cases h
    split at hcached
    next hrange =>
      have hid : self.regionLookupCache.region = some region.id := by
        simpa using find?_some hcached
      refine .inr ⟨region, mem_of_find?_eq_some hcached, rfl, ?_, .inl rfl⟩
      rw [← hrange, ← hid]
    next => cases hcached
  next =>
    split at h
    next =>
      cases h
      exact .inl ⟨rfl, rfl⟩
    next region hregion =>
      obtain ⟨size, hsize, h⟩ := bind_eq_some_iff.mp h
      split at h
      next =>
        cases h
        exact .inl ⟨rfl, rfl⟩
      next hne =>
        cases h
        refine .inr ⟨region, mem_of_find?_eq_some hregion, rfl, rfl, .inr ⟨?_, ?_⟩⟩
        · simpa using find?_some hregion
        · rw [hsize, not_not.mp hne]

end Space

end Kernel
