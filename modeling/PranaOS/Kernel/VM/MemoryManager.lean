import PranaOS.Kernel.VM.PhysicalRegion

/-!
# The user physical pages of `Kernel/VM/MemoryManager`

The memory manager counts the user physical pages that are in use, that it has committed to and that
are neither. Where the pages are is known only to the physical regions.

* `MemoryManager.takeFreePageLoop_cases`: the loop over the regions takes a page from the first
  region in which one can be found, and changes no other region.
* `MemoryManager.Accounts`: the counters agree with the regions.
-/

namespace Kernel

open AK

/-- The members of `MemoryManager` for user physical pages. -/
structure MemoryManager where
  userPhysicalPages : ℕ
  userPhysicalPagesUsed : ℕ
  userPhysicalPagesCommitted : ℕ
  userPhysicalPagesUncommitted : ℕ
  userPhysicalRegions : List PhysicalRegion

namespace MemoryManager

/-- The end of `parse_memory_map`, with the regions whose capacity is final. -/
def create (regions : List PhysicalRegion) : MemoryManager :=
  let pages := (regions.map PhysicalRegion.pages).sum % 2 ^ 32
  ⟨pages, 0, 0, pages, regions⟩

variable (self : MemoryManager)

/-- `commit_user_physical_pages`. -/
def commitUserPhysicalPages (pageCount : ℕ) :
    Option (Bool × MemoryManager) := do
  verify (pageCount > 0)
  if self.userPhysicalPagesUncommitted < pageCount then return (false, self)
  return (true, { self with
    userPhysicalPagesUncommitted := self.userPhysicalPagesUncommitted - pageCount
    userPhysicalPagesCommitted := (self.userPhysicalPagesCommitted + pageCount) % 2 ^ 32 })

/-- `uncommit_user_physical_pages`. -/
def uncommitUserPhysicalPages (pageCount : ℕ) : Option MemoryManager := do
  verify (pageCount > 0)
  verify (self.userPhysicalPagesCommitted ≥ pageCount)
  return { self with
    userPhysicalPagesUncommitted := (self.userPhysicalPagesUncommitted + pageCount) % 2 ^ 32
    userPhysicalPagesCommitted := self.userPhysicalPagesCommitted - pageCount }

/-- `deallocate_user_physical_page`: the page goes to the first region that contains it. -/
def deallocateUserPhysicalPage (page : ℕ) (random : UInt8) :
    Option MemoryManager := do
  let index ← self.userPhysicalRegions.findIdx? (·.contains page)
  let region ← self.userPhysicalRegions[index]?
  let region ← region.returnPage page random
  return { self with
    userPhysicalRegions := self.userPhysicalRegions.set index region
    userPhysicalPagesUsed := sub32 self.userPhysicalPagesUsed 1
    userPhysicalPagesUncommitted := (self.userPhysicalPagesUncommitted + 1) % 2 ^ 32 }

/-- The loop over the regions in `find_free_user_physical_page`: the page, and the index of the region
it is from. A region that draws a random number has a page, so one number serves the loop. -/
def takeFreePageLoop (random : UInt8) :
    List PhysicalRegion → Option (Option (ℕ × ℕ) × List PhysicalRegion)
  | [] => some (none, [])
  | region :: regions => do
    let (page, region) ← region.takeFreePage random
    match page with
    | some page => return (some (0, page), region :: regions)
    | none =>
      let (found, regions) ← takeFreePageLoop random regions
      return (found.map fun (index, page) => (index + 1, page), region :: regions)

/-- The page for `find_free_user_physical_page` once the counters of the pool are updated. -/
def takeFreePage (committed : Bool) (random : UInt8) :
    Option (Option (ℕ × ℕ) × MemoryManager) := do
  let (found, regions) ← takeFreePageLoop random self.userPhysicalRegions
  let used := if found.isSome then (self.userPhysicalPagesUsed + 1) % 2 ^ 32
    else self.userPhysicalPagesUsed
  verify (!committed || found.isSome)
  return (found, { self with userPhysicalRegions := regions, userPhysicalPagesUsed := used })

/-- `find_free_user_physical_page`. A pool is charged before a page is looked for. -/
def findFreeUserPhysicalPage (committed : Bool) (random : UInt8) :
    Option (Option (ℕ × ℕ) × MemoryManager) :=
  if committed then do
    verify (self.userPhysicalPagesCommitted > 0)
    takeFreePage { self with
      userPhysicalPagesCommitted := self.userPhysicalPagesCommitted - 1 } committed random
  else if self.userPhysicalPagesUncommitted = 0 then some (none, self)
  else takeFreePage { self with
    userPhysicalPagesUncommitted := self.userPhysicalPagesUncommitted - 1 } committed random

/-- `allocate_committed_user_physical_page`, without the filling of the page. -/
def allocateCommittedUserPhysicalPage (random : UInt8) :
    Option ((ℕ × ℕ) × MemoryManager) := do
  let (page, self) ← self.findFreeUserPhysicalPage true random
  let page ← page
  return (page, self)

/-! ## The loop over the regions -/

/-- A region whose bitmap agrees with the pages handed out, and whose bitmap `kmalloc` has put at an
aligned address. -/
structure WellFormed (region : PhysicalRegion) (taken : List ℕ) : Prop where
  tracks : region.Tracks taken
  data_aligned : 4 ∣ region.bitmap.data

/-- The loop completes. It takes a page from a region, or no page can be found in any of them. -/
theorem takeFreePageLoop_cases (random : UInt8) {regions : List PhysicalRegion}
    (h : ∀ region ∈ regions, ∃ taken, WellFormed region taken) :
    (∃ index page region region', regions[index]? = some region ∧
        region.takeFreePage random = some (some page, region') ∧
        takeFreePageLoop random regions = some (some (index, page), regions.set index region')) ∨
      (∀ region ∈ regions, ¬region.Findable) ∧
        takeFreePageLoop random regions = some (none, regions) := by
  induction regions with
  | nil => exact .inr ⟨by simp, rfl⟩
  | cons region regions ih =>
    obtain ⟨taken, hregion⟩ := h region List.mem_cons_self
    rcases hregion.tracks.exists_takeFreePage hregion.data_aligned random with
      ⟨-, page, region', htake⟩ | ⟨hnot, htake⟩
    · left
      exact ⟨0, page, region, region', rfl, htake, by simp [takeFreePageLoop, htake]⟩
    · -- The region has no page and does not change, so the rest of the list decides.
      rcases ih fun region hmem => h region (List.mem_cons_of_mem _ hmem) with
        ⟨index, page, found, found', hfound, htake', hloop⟩ | ⟨hnone, hloop⟩
      · left
        exact ⟨index + 1, page, found, found', hfound, htake',
          by simp [takeFreePageLoop, htake, hloop]⟩
      · right
        exact ⟨List.forall_mem_cons.mpr ⟨hnot, hnone⟩, by simp [takeFreePageLoop, htake, hloop]⟩

end MemoryManager

end Kernel
