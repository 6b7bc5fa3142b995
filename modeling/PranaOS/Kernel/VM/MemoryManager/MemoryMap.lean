import PranaOS.Kernel.VM.MemoryManager

/-!
# The boot memory map

`MemoryManager::parse_memory_map` turns the entries of the multiboot memory map into the regions of
user physical pages. It visits the page at the end of every entry as well, and the last page of a
region is not counted, so that usually nothing is gained and nothing is lost. The pages counted are
those that are followed by the next page among the pages visited and not skipped
(`Assigned.pages_eq`), also when the next page is from another entry.

A page is skipped if its address is in a used range, bounds included. A used range that begins
inside the page is not noticed.

The super physical region, which does not depend on the memory map, is left out.
-/

namespace Kernel

open AK List Option Nat

/-- `multiboot_memory_map_t`; `addr` and `len` have 64 bits. -/
structure MultibootMemoryMap where
  addr : ℕ
  len : ℕ
  type : ℕ
deriving DecidableEq, Repr

/-- `MULTIBOOT_MEMORY_AVAILABLE`. -/
def multibootMemoryAvailable : ℕ := 1

/-- `struct UsedMemoryRange`. -/
structure UsedMemoryRange where
  start : ℕ
  endAddress : ℕ
deriving DecidableEq, Repr

namespace MemoryManager

/-- The address and length of an entry whose bounds have been corrected to multiples of the page size,
or `none` if the entry is not used. -/
def fixUp (mmap : MultibootMemoryMap) : Option (ℕ × ℕ) :=
  if mmap.type ≠ multibootMemoryAvailable then none
  else if (mmap.addr + mmap.len) % 2 ^ 64 > 0xffffffff then none
  else
    let diff := mmap.addr % 2 ^ 32 % pageSize
    let addr := if diff ≠ 0 then (mmap.addr + (pageSize - diff)) % 2 ^ 64 else mmap.addr
    let len := if diff ≠ 0 then (mmap.len + 2 ^ 64 - (pageSize - diff)) % 2 ^ 64 else mmap.len
    let len := len - len % pageSize
    if len < pageSize then none else some (addr, len)

variable (used : List UsedMemoryRange)

/-- `should_skip`. -/
def shouldSkip (addr : ℕ) : Bool :=
  used.any fun range => decide (addr ≥ range.start) && decide (addr ≤ range.endAddress)

/-- A page is assigned to the last region, or to a new one. -/
def assignPage (regions : List PhysicalRegion) (addr : ℕ) : Option (List PhysicalRegion) :=
  match regions.getLast? with
  | none => some (regions ++ [PhysicalRegion.create addr addr])
  | some region =>
    if (region.upper + pageSize) % 2 ^ 32 ≠ addr then
      some (regions ++ [PhysicalRegion.create addr addr])
    else do
      let region ← region.expand region.lower addr
      return regions.dropLast ++ [region]

/-- The body of the loop over the pages of an entry. -/
def visitPage (regions : List PhysicalRegion) (addr : ℕ) :
    Option (List PhysicalRegion) :=
  if shouldSkip used addr then some regions else assignPage regions addr

/-- The loop over the pages of an entry. `page_base` has 32 bits and can wrap around to zero, so the
iterations are counted down from `fuel`; `none` means that the loop has not ended by then. -/
def assignPages (used : List UsedMemoryRange) (last : ℕ) :
    ℕ → ℕ → List PhysicalRegion → Option (List PhysicalRegion)
  | 0, _, _ => none
  | fuel + 1, pageBase, regions =>
    if pageBase ≤ last then do
      let regions ← visitPage used regions pageBase
      assignPages used last fuel ((pageBase + pageSize) % 2 ^ 32) regions
    else some regions

/-- The loop over the entries. -/
def assignEntries (used : List UsedMemoryRange) (fuel : ℕ) :
    List MultibootMemoryMap → List PhysicalRegion → Option (List PhysicalRegion)
  | [], regions => some regions
  | mmap :: entries, regions =>
    match fixUp mmap with
    | none => assignEntries used fuel entries regions
    | some (addr, len) => do
      let regions ← assignPages used ((addr + len) % 2 ^ 64) fuel (addr % 2 ^ 32) regions
      assignEntries used fuel entries regions

/-- The calls of `finalize_capacity`. `data` gives the addresses that `kmalloc` returns. -/
def finalizeCapacities (data : ℕ → ℕ) : List PhysicalRegion → Option (List PhysicalRegion)
  | [] => some []
  | region :: regions => do
    let region ← region.finalizeCapacity (data regions.length)
    let regions ← finalizeCapacities data regions
    return region :: regions

/-- `parse_memory_map`. -/
def parseMemoryMap (entries : List MultibootMemoryMap) (used : List UsedMemoryRange)
    (data : ℕ → ℕ) (fuel : ℕ) : Option MemoryManager := do
  let regions ← assignEntries used fuel entries []
  let regions ← finalizeCapacities data regions
  let self := create regions
  verify (self.userPhysicalPages > 0)
  return self

/-! ## The pages visited -/

/-- The pages from `page` to `last`. -/
def pagesUpTo (page last : ℕ) : List ℕ :=
  (List.range ((last + pageSize - page) / pageSize)).map fun i => page + i * pageSize

/-- The pages of an entry that are visited and not skipped. -/
def visitedPages (mmap : MultibootMemoryMap) : List ℕ :=
  match fixUp mmap with
  | none => []
  | some (addr, len) =>
    (pagesUpTo addr ((addr + len) % 2 ^ 64)).filter fun page => !shouldSkip used page

/-- The page after a page. -/
def nextPage (page : ℕ) : ℕ := page + pageSize

/-- The pages that are counted: those that are followed by the next page. -/
def countedPages (entries : List MultibootMemoryMap) : List ℕ :=
  (entries.flatMap (visitedPages used)).followed nextPage

variable {used : List UsedMemoryRange} {entries : List MultibootMemoryMap}
  {mmap : MultibootMemoryMap} {addr len last fuel page : ℕ} {regions regions' : List PhysicalRegion}

/-- What the correction of the bounds does to an entry below 4 GiB: both are rounded to a page. The
length of an entry that ends in its first page wraps around, so that no page is visited. -/
theorem fixUp_spec (hmmap : mmap.addr + mmap.len ≤ 2 ^ 32) (h : fixUp mmap = some (addr, len)) :
    mmap.type = multibootMemoryAvailable ∧ mmap.addr + mmap.len < 2 ^ 32 ∧ pageSize ∣ addr ∧
      mmap.addr ≤ addr ∧ addr < mmap.addr + pageSize ∧
      (addr + len) % 2 ^ 64 = mmap.addr + mmap.len - (mmap.addr + mmap.len) % pageSize := by
  have hdiff : mmap.addr % 2 ^ 32 % pageSize = mmap.addr % pageSize := by
    unfold pageSize
    omega
  simp only [fixUp, hdiff] at h
  split at h
  next => simp at h
  next htype =>
    split at h
    next => simp at h
    next hsum =>
      refine ⟨not_not.mp htype, by omega, ?_⟩
      by_cases hzero : mmap.addr % pageSize = 0
      · simp only [hzero, ne_eq, not_true_eq_false, if_false, ite_none_left_eq_some] at h
        obtain ⟨hlen, ⟨⟩⟩ := h
        unfold pageSize at *
        omega
      · simp only [hzero, ne_eq, not_false_eq_true, if_true, ite_none_left_eq_some] at h
        obtain ⟨hlen, ⟨⟩⟩ := h
        unfold pageSize at *
        omega

/-- A loop up to the last page of the address space never ends. -/
theorem last_lt_of_assignPages (hpage : pageSize ∣ page) (hlt : page < 2 ^ 32)
    (h : assignPages used last fuel page regions = some regions') : last < 2 ^ 32 - pageSize := by
  by_contra hlast
  induction fuel generalizing page regions with
  | zero => cases h
  | succ fuel ih =>
    have hle : page ≤ last := by
      unfold pageSize at *
      omega
    rw [assignPages, if_pos hle] at h
    obtain ⟨regions'', -, h⟩ := bind_eq_some_iff.mp h
    refine ih ?_ (mod_lt _ (by decide)) h
    unfold pageSize at *
    omega

theorem pagesUpTo_of_le (hle : page ≤ last) :
    pagesUpTo page last = page :: pagesUpTo (page + pageSize) last := by
  have hcount : (last + pageSize - page) / pageSize =
      (last + pageSize - (page + pageSize)) / pageSize + 1 := by
    rw [show last + pageSize - page = last + pageSize - (page + pageSize) + pageSize by omega,
      add_div_right _ (show 0 < pageSize by decide)]
  unfold pagesUpTo
  rw [hcount, range_succ_eq_map, map_cons, List.map_map]
  refine congrArg₂ List.cons (by simp) (map_congr_left fun i _ => ?_)
  simp only [Function.comp_apply, succ_mul]
  omega

theorem pagesUpTo_of_lt (hlt : last < page) : pagesUpTo page last = [] := by
  have hpos : 0 < pageSize := by decide
  have hzero : (last + pageSize - page) / pageSize = 0 := div_eq_of_lt (by omega)
  rw [pagesUpTo, hzero, range_zero, map_nil]

/-- The address space in front of the last page is where the loops over the pages end. -/
def BelowLastPage (page : ℕ) : Prop := pageSize ∣ page ∧ page + pageSize < 2 ^ 32

theorem mem_pagesUpTo (hpage : page ∈ pagesUpTo addr last) :
    addr ≤ page ∧ page ≤ last ∧ (pageSize ∣ addr → pageSize ∣ page) := by
  simp only [pagesUpTo, List.mem_map, mem_range] at hpage
  obtain ⟨i, hi, rfl⟩ := hpage
  have hpos : 0 < pageSize := by decide
  have hsucc := Nat.mul_le_of_le_div _ _ _ (Nat.succ_le_of_lt hi)
  rw [succ_mul] at hsucc
  exact ⟨Nat.le_add_right _ _, by omega, fun haddr => Nat.dvd_add haddr (Nat.dvd_mul_left _ _)⟩

/-- The pages visited in an entry. -/
theorem mem_visitedPages (hpage : page ∈ visitedPages used mmap) :
    shouldSkip used page = false ∧ ∃ addr len, fixUp mmap = some (addr, len) ∧ addr ≤ page ∧
      page ≤ (addr + len) % 2 ^ 64 ∧ (pageSize ∣ addr → pageSize ∣ page) := by
  unfold visitedPages at hpage
  split at hpage
  next => simp at hpage
  next addr len hfix =>
    obtain ⟨hmem, hskip⟩ := mem_filter.mp hpage
    exact ⟨by simpa using hskip, addr, len, hfix, mem_pagesUpTo hmem⟩

/-! ## The regions -/

/-- The pages from `lower` to `upper`, the last one not counted. -/
def pagesBetween (lower upper : ℕ) : List ℕ :=
  (List.range ((upper - lower) / pageSize)).map fun i => lower + i * pageSize

theorem pagesBetween_self (lower : ℕ) : pagesBetween lower lower = [] := by
  rw [pagesBetween, Nat.sub_self, Nat.zero_div, range_zero, map_nil]

theorem pagesBetween_add_pageSize {lower upper : ℕ} (hle : lower ≤ upper)
    (hlower : pageSize ∣ lower) (hupper : pageSize ∣ upper) :
    pagesBetween lower (upper + pageSize) = pagesBetween lower upper ++ [upper] := by
  have hcount : (upper + pageSize - lower) / pageSize = (upper - lower) / pageSize + 1 := by
    rw [Nat.sub_add_comm hle, add_div_right _ (show 0 < pageSize by decide)]
  have hlast : lower + (upper - lower) / pageSize * pageSize = upper := by
    rw [Nat.div_mul_cancel (Nat.dvd_sub hupper hlower), Nat.add_sub_cancel' hle]
  rw [pagesBetween, hcount, range_succ, map_append, map_singleton, hlast, pagesBetween]

/-- A region whose capacity has not been finalized. -/
def HasShape (region : PhysicalRegion) : Prop :=
  region = PhysicalRegion.create region.lower region.upper ∧ pageSize ∣ region.lower ∧
    region.lower ≤ region.upper ∧ BelowLastPage region.upper

/-- The regions that the pages have been assigned to: the pages that they count are those that are
followed by the next page, and the last region ends with the last page. -/
structure Assigned (regions : List PhysicalRegion) (pages : List ℕ) : Prop where
  shape : ∀ region ∈ regions, HasShape region
  last_eq : regions.getLast?.map PhysicalRegion.upper = pages.getLast?
  pages_eq : regions.flatMap (fun region => pagesBetween region.lower region.upper) =
    pages.followed nextPage

theorem assigned_nil : Assigned [] [] := ⟨by simp, rfl, rfl⟩

/-- A page that begins a new region. -/
theorem Assigned.concat {pages : List ℕ} (h : Assigned regions pages) (hpage : BelowLastPage page)
    (hlast : ∀ last ∈ pages.getLast?, nextPage last ≠ page) :
    Assigned (regions ++ [PhysicalRegion.create page page]) (pages ++ [page]) where
  shape region hregion := by
    rcases mem_append.mp hregion with hregion | hregion
    · exact h.shape region hregion
    · rw [mem_singleton.mp hregion]
      exact ⟨rfl, hpage.1, le_rfl, hpage⟩
  last_eq := by
    rw [getLast?_concat, getLast?_concat]
    rfl
  pages_eq := by
    have hnew : pagesBetween (PhysicalRegion.create page page).lower
        (PhysicalRegion.create page page).upper = [] := pagesBetween_self page
    rw [flatMap_append, h.pages_eq, flatMap_singleton, hnew, append_nil]
    rcases eq_nil_or_concat pages with rfl | ⟨front, last, rfl⟩
    · rfl
    · rw [concat_eq_append, append_assoc, singleton_append,
        followed_append_pair, if_neg (Ne.symm (hlast last (by simp))), append_nil]

/-- A page that is added to the last region. -/
theorem Assigned.expand {front : List PhysicalRegion} {region : PhysicalRegion} {pages : List ℕ}
    (h : Assigned (front ++ [region]) pages) (hpage : BelowLastPage page)
    (hnext : nextPage region.upper = page) :
    Assigned (front ++ [{ region with upper := page }]) (pages ++ [page]) where
  shape other hother := by
    rcases mem_append.mp hother with hother | hother
    · exact h.shape other (mem_append_left _ hother)
    · obtain ⟨hcreate, hlower, hle, -⟩ := h.shape region (by simp)
      rw [mem_singleton.mp hother]
      refine ⟨?_, hlower, ?_, hpage⟩
      · rw [hcreate]
        rfl
      · exact hle.trans (hnext ▸ Nat.le_add_right _ _)
  last_eq := by
    rw [getLast?_concat, getLast?_concat]
    rfl
  pages_eq := by
    obtain ⟨-, hlower, hle, hupper⟩ := h.shape region (by simp)
    have hlast := h.last_eq
    rw [getLast?_concat, map_some] at hlast
    obtain ⟨pages, rfl⟩ := getLast?_eq_some_iff.mp hlast.symm
    have hpages := h.pages_eq
    rw [flatMap_append, flatMap_singleton] at hpages
    rw [flatMap_append, flatMap_singleton, append_assoc, singleton_append,
      followed_append_pair, if_pos hnext.symm, ← hpages, append_assoc, ← hnext]
    exact congrArg _ (pagesBetween_add_pageSize hle hlower hupper.1)

theorem Assigned.assignPage {pages : List ℕ} (h : Assigned regions pages)
    (hpage : BelowLastPage page) (hassign : assignPage regions page = some regions') :
    Assigned regions' (pages ++ [page]) := by
  unfold MemoryManager.assignPage at hassign
  split at hassign
  next hnone =>
    cases hassign
    refine h.concat hpage fun last hlast => ?_
    rw [← h.last_eq, hnone] at hlast
    simp at hlast
  next region hregion =>
    obtain ⟨front, rfl⟩ := getLast?_eq_some_iff.mp hregion
    obtain ⟨hcreate, -, -, hupper⟩ := h.shape region (by simp)
    have hmod : (region.upper + pageSize) % 2 ^ 32 = nextPage region.upper := mod_eq_of_lt hupper.2
    rw [hmod] at hassign
    split at hassign
    next hne =>
      cases hassign
      refine h.concat hpage fun last hlast => ?_
      rw [← h.last_eq, hregion] at hlast
      simp only [map_some, mem_def, some.injEq] at hlast
      exact hlast ▸ hne
    next heq =>
      have hpages : verify (region.pages = 0) = some () := by
        rw [hcreate]
        rfl
      simp only [PhysicalRegion.expand, hpages, bind_eq_bind, bind_some, Option.pure_def, some.injEq, dropLast_concat] at hassign
      subst hassign
      exact h.expand hpage (not_not.mp heq)

/-- The loop over the pages of an entry assigns those that are not skipped. -/
theorem Assigned.assignPages {pages : List ℕ} (h : Assigned regions pages) (hpage : pageSize ∣ page)
    (hlt : page < 2 ^ 32) (hassign : assignPages used last fuel page regions = some regions') :
    Assigned regions' (pages ++ (pagesUpTo page last).filter fun page => !shouldSkip used page) := by
  have hlast := last_lt_of_assignPages hpage hlt hassign
  induction fuel generalizing page regions pages with
  | zero => cases hassign
  | succ fuel ih =>
    rw [MemoryManager.assignPages] at hassign
    split at hassign
    next hle =>
      obtain ⟨regions'', hvisit, hassign⟩ := bind_eq_some_iff.mp hassign
      have hnext : page + pageSize < 2 ^ 32 := add_lt_of_lt_sub (hle.trans_lt hlast)
      rw [mod_eq_of_lt hnext] at hassign
      rw [pagesUpTo_of_le hle, filter_cons]
      unfold visitPage at hvisit
      have hrest {pages} h := @ih _ _ pages h (Nat.dvd_add_self_right.mpr hpage) hnext hassign
      cases hskip : shouldSkip used page
      · simp only [hskip, Bool.false_eq_true, if_false] at hvisit
        simpa using hrest (h.assignPage ⟨hpage, hnext⟩ hvisit)
      · simp only [hskip, if_true, some.injEq] at hvisit
        exact hrest (hvisit ▸ h)
    next hle =>
      cases hassign
      simpa [pagesUpTo_of_lt (not_le.mp hle)] using h

/-- The loop over the entries assigns the pages visited, one after the other. -/
theorem Assigned.assignEntries {pages : List ℕ} (h : Assigned regions pages)
    (hentries : ∀ mmap ∈ entries, mmap.addr + mmap.len ≤ 2 ^ 32)
    (hassign : assignEntries used fuel entries regions = some regions') :
    Assigned regions' (pages ++ entries.flatMap (visitedPages used)) := by
  induction entries generalizing regions pages with
  | nil =>
    cases hassign
    simpa using h
  | cons mmap entries ih =>
    have hrest := fun {r pages} h => @ih r pages h fun mmap hmem => hentries mmap (mem_cons_of_mem _ hmem)
    rw [MemoryManager.assignEntries] at hassign
    rw [flatMap_cons, ← append_assoc, visitedPages]
    cases hfix : fixUp mmap with
    | none =>
      rw [hfix] at hassign
      exact hrest (by simpa using h) hassign
    | some bounds =>
      rw [hfix] at hassign
      obtain ⟨regions'', hpages, hassign⟩ := bind_eq_some_iff.mp hassign
      obtain ⟨-, hend, hdvd, hlow, hhigh, hlast⟩ := fixUp_spec (hentries mmap mem_cons_self) hfix
      have hbelow := last_lt_of_assignPages ((dvd_mod_iff (by decide)).mpr hdvd)
        (mod_lt _ (by decide)) hpages
      have haddr : bounds.1 < 2 ^ 32 := by
        unfold pageSize at *
        omega
      rw [mod_eq_of_lt haddr] at hpages
      exact hrest (h.assignPages hdvd haddr hpages) hassign

/-- The addresses of the pages of a region. -/
def pageAddresses (region : PhysicalRegion) : List ℕ :=
  (List.range region.pages).map region.address

/-- The pages do not change when the capacities are finalized. -/
theorem finalizeCapacities_spec {data : ℕ → ℕ} (hshape : ∀ region ∈ regions, HasShape region)
    (h : finalizeCapacities data regions = some regions') :
    regions'.flatMap pageAddresses =
        regions.flatMap (fun region => pagesBetween region.lower region.upper) ∧
      ∀ region ∈ regions', pageSize ∣ region.lower := by
  induction regions generalizing regions' with
  | nil =>
    rw [finalizeCapacities, some.injEq] at h
    subst h
    exact ⟨rfl, by simp⟩
  | cons region regions ih =>
    simp only [finalizeCapacities, bind_eq_bind, bind_eq_some_iff] at h
    obtain ⟨final, hfinal, finals, hfinals, ⟨⟩⟩ := h
    obtain ⟨hpages, hlower⟩ := ih (fun r hr => hshape r (mem_cons_of_mem _ hr)) hfinals
    obtain ⟨-, hdvd, hle, -, hupper⟩ := hshape region mem_cons_self
    simp only [PhysicalRegion.finalizeCapacity, verify_bind_eq_some] at hfinal
    obtain ⟨-, -, ⟨⟩⟩ := hfinal
    have hsub : sub32 region.upper region.lower = region.upper - region.lower :=
      sub32_eq_sub hle (by omega)
    constructor
    · rw [flatMap_cons, flatMap_cons, hpages, pageAddresses, pagesBetween]
      simp only [hsub]
      rfl
    · exact forall_mem_cons.mpr ⟨hdvd, hlower⟩

/-- The pages of the regions are the pages counted. -/
theorem flatMap_pageAddresses {data : ℕ → ℕ} {self : MemoryManager}
    (hentries : ∀ mmap ∈ entries, mmap.addr + mmap.len ≤ 2 ^ 32)
    (h : parseMemoryMap entries used data fuel = some self) :
    self.userPhysicalRegions.flatMap pageAddresses = countedPages used entries ∧
      ∀ region ∈ self.userPhysicalRegions, pageSize ∣ region.lower := by
  obtain ⟨regions, hassign, h⟩ := bind_eq_some_iff.mp h
  obtain ⟨finals, hfinal, h⟩ := bind_eq_some_iff.mp h
  simp only [verify_bind_eq_some] at h
  obtain ⟨-, ⟨⟩⟩ := h
  have hassigned := assigned_nil.assignEntries hentries hassign
  obtain ⟨hpages, hlower⟩ := finalizeCapacities_spec hassigned.shape hfinal
  exact ⟨hpages.trans hassigned.pages_eq, hlower⟩

/-! ## Safety -/

/-- The page is inside an available entry. -/
def Available (entries : List MultibootMemoryMap) (page : ℕ) : Prop :=
  ∃ mmap ∈ entries, mmap.type = multibootMemoryAvailable ∧ mmap.addr ≤ page ∧
    page + pageSize ≤ mmap.addr + mmap.len

/-- The bytes of a region. -/
def bytes (region : PhysicalRegion) : Set ℕ :=
  Set.Ico region.lower (region.lower + region.pages * pageSize)

/-- Every page of every region is inside an available entry and does not intersect a used range, and
the regions are disjoint. -/
@[mk_iff]
structure RegionsSafe (entries : List MultibootMemoryMap) (used : List UsedMemoryRange)
    (regions : List PhysicalRegion) : Prop where
  available : ∀ region ∈ regions, ∀ i < region.pages, Available entries (region.address i)
  unused : ∀ region ∈ regions, ∀ i < region.pages, ∀ range ∈ used,
    Disjoint (Set.Ico (region.address i) (region.address i + pageSize))
      (Set.Ico range.start range.endAddress)
  disjoint : regions.Pairwise fun a b => Disjoint (bytes a) (bytes b)

/-- The condition under which the regions are safe. The page at the end of an entry can be followed
by the first page visited after it only if it is available anyway, a used range does not begin
inside a page that is counted, and no page is counted twice. -/
@[mk_iff]
structure MapOk (entries : List MultibootMemoryMap) (used : List UsedMemoryRange) : Prop where
  end_available : ∀ before mmap after addr len, entries = before ++ mmap :: after →
    fixUp mmap = some (addr, len) → addr ≤ (addr + len) % 2 ^ 64 →
    shouldSkip used ((addr + len) % 2 ^ 64) = false →
    (after.flatMap (visitedPages used)).head? = some (nextPage ((addr + len) % 2 ^ 64)) →
    Available entries ((addr + len) % 2 ^ 64)
  start_outside : ∀ page ∈ countedPages used entries, ∀ range ∈ used,
    range.start < range.endAddress → ¬(page < range.start ∧ range.start < page + pageSize)
  counted_once : (countedPages used entries).Nodup

theorem forall_pages_iff {P : ℕ → Prop} : (∀ region ∈ regions, ∀ i < region.pages,
    P (region.address i)) ↔ ∀ page ∈ regions.flatMap pageAddresses, P page := by
  simp only [mem_flatMap, pageAddresses, List.mem_map, mem_range]
  constructor
  · rintro h page ⟨region, hregion, i, hi, rfl⟩
    exact h region hregion i hi
  · intro h region hregion i hi
    exact h _ ⟨region, hregion, i, hi, rfl⟩

/-- Two regions have no byte in common if they have no page in common. -/
theorem disjoint_bytes_iff {a b : PhysicalRegion} (ha : pageSize ∣ a.lower)
    (hb : pageSize ∣ b.lower) :
    Disjoint (bytes a) (bytes b) ↔ List.Disjoint (pageAddresses a) (pageAddresses b) := by
  have hmem (region : PhysicalRegion) (hlower : pageSize ∣ region.lower) (byte : ℕ) :
      byte ∈ bytes region ↔ byte - byte % pageSize ∈ pageAddresses region := by
    obtain ⟨k, hk⟩ := hlower
    simp only [bytes, pageAddresses, PhysicalRegion.address, Set.mem_Ico, List.mem_map,
      mem_range, hk, pageSize]
    constructor
    · rintro ⟨hlow, hhigh⟩
      exact ⟨byte / 4096 - k, by omega, by omega⟩
    · rintro ⟨i, hi, heq⟩
      omega
  have hself {region : PhysicalRegion} {page : ℕ} (hpage : page ∈ pageAddresses region) :
      page ∈ bytes region := by
    simp only [pageAddresses, List.mem_map, mem_range] at hpage
    obtain ⟨i, hi, rfl⟩ := hpage
    simp only [bytes, PhysicalRegion.address, Set.mem_Ico, pageSize]
    omega
  rw [Set.disjoint_left]
  constructor
  · intro h page hpa hpb
    exact h (hself hpa) (hself hpb)
  · intro h byte hba hbb
    exact h ((hmem a ha byte).mp hba) ((hmem b hb byte).mp hbb)

/-- The regions are disjoint exactly if no page is in them twice. -/
theorem pairwise_disjoint_iff (hlower : ∀ region ∈ regions, pageSize ∣ region.lower) :
    (regions.Pairwise fun a b => Disjoint (bytes a) (bytes b)) ↔
      (regions.flatMap pageAddresses).Nodup := by
  have hnodup : ∀ region ∈ regions, (pageAddresses region).Nodup := fun region _ =>
    nodup_range.map PhysicalRegion.address_injective
  rw [nodup_flatMap, and_iff_right hnodup]
  constructor
  · intro h
    exact h.imp_of_mem fun ha hb hab => (disjoint_bytes_iff (hlower _ ha) (hlower _ hb)).mp hab
  · intro h
    exact h.imp_of_mem fun ha hb hab => (disjoint_bytes_iff (hlower _ ha) (hlower _ hb)).mpr hab

/-- A page that is not skipped intersects only used ranges that begin inside it. -/
theorem disjoint_used_iff (hskip : shouldSkip used page = false) {range : UsedMemoryRange}
    (hrange : range ∈ used) :
    Disjoint (Set.Ico page (page + pageSize)) (Set.Ico range.start range.endAddress) ↔
      (range.start < range.endAddress → ¬(page < range.start ∧ range.start < page + pageSize)) := by
  have hout : ¬(range.start ≤ page ∧ page ≤ range.endAddress) := by
    have hall := List.any_eq_false.mp hskip range hrange
    simpa using hall
  rw [Set.Ico_disjoint_Ico]
  omega

/-- A page that is counted is inside its entry, or it is at the end of an entry and the pages visited
after the entry begin with the next page. -/
theorem mem_countedPages (hentries : ∀ mmap ∈ entries, mmap.addr + mmap.len ≤ 2 ^ 32)
    (hpage : page ∈ countedPages used entries) :
    Available entries page ∨ ∃ before mmap after addr len, entries = before ++ mmap :: after ∧
      fixUp mmap = some (addr, len) ∧ addr ≤ (addr + len) % 2 ^ 64 ∧
      shouldSkip used page = false ∧ page = (addr + len) % 2 ^ 64 ∧
      (after.flatMap (visitedPages used)).head? = some (nextPage page) := by
  induction entries with
  | nil => simp [countedPages, List.followed] at hpage
  | cons mmap entries ih =>
    have hmmap := hentries mmap mem_cons_self
    rw [countedPages, flatMap_cons, mem_followed_append] at hpage
    rcases hpage with hpage | ⟨hlast, hhead⟩ | hpage
    · -- The next page is visited in the same entry.
      obtain ⟨hmem, hnext⟩ := mem_of_mem_followed hpage
      obtain ⟨-, addr, len, hfix, hlow, -⟩ := mem_visitedPages hmem
      obtain ⟨-, addr', len', hfix', -, hhigh, -⟩ := mem_visitedPages hnext
      obtain ⟨rfl, rfl⟩ := Prod.mk.inj (some.inj (hfix.symm.trans hfix'))
      obtain ⟨htype, -, -, hstart, -, hend⟩ := fixUp_spec hmmap hfix
      refine .inl ⟨mmap, mem_cons_self, htype, hstart.trans hlow, ?_⟩
      rw [hend] at hhigh
      exact hhigh.trans (sub_le _ _)
    · -- The page is the last one visited in the entry.
      obtain ⟨hskip, addr, len, hfix, hlow, hhigh, haligned⟩ :=
        mem_visitedPages (mem_of_getLast? hlast)
      obtain ⟨htype, -, hdvd, hstart, -, hend⟩ := fixUp_spec hmmap hfix
      by_cases heq : page = (addr + len) % 2 ^ 64
      · exact .inr ⟨[], mmap, entries, addr, len, rfl, hfix, heq ▸ hlow, hskip, heq, hhead⟩
      · have haligned := haligned hdvd
        refine .inl ⟨mmap, mem_cons_self, htype, hstart.trans hlow, ?_⟩
        unfold pageSize at *
        omega
    · rcases ih (fun m hm => hentries m (mem_cons_of_mem _ hm)) hpage with
        ⟨m, hm, hinside⟩ | ⟨before, m, after, addr, len, rfl, hrest⟩
      · exact .inl ⟨m, mem_cons_of_mem _ hm, hinside⟩
      · exact .inr ⟨mmap :: before, m, after, addr, len, rfl, hrest⟩

theorem getLast?_pagesUpTo (hle : addr ≤ last) (haddr : pageSize ∣ addr) (hlast : pageSize ∣ last) :
    (pagesUpTo addr last).getLast? = some last := by
  have hconcat : pagesUpTo addr last = pagesBetween addr last ++ [last] :=
    pagesBetween_add_pageSize hle haddr hlast
  rw [hconcat, getLast?_concat]

/-- The page at the end of an entry is counted if the next page is visited after it. -/
theorem end_mem_countedPages {before after : List MultibootMemoryMap}
    (hmmap : mmap.addr + mmap.len ≤ 2 ^ 32) (hfix : fixUp mmap = some (addr, len))
    (hle : addr ≤ (addr + len) % 2 ^ 64)
    (hskip : shouldSkip used ((addr + len) % 2 ^ 64) = false)
    (hhead : (after.flatMap (visitedPages used)).head? = some (nextPage ((addr + len) % 2 ^ 64))) :
    (addr + len) % 2 ^ 64 ∈ countedPages used (before ++ mmap :: after) := by
  obtain ⟨-, -, hdvd, -, -, hend⟩ := fixUp_spec hmmap hfix
  have hlast : pageSize ∣ (addr + len) % 2 ^ 64 := by
    rw [hend]
    exact dvd_sub_mod _
  rw [countedPages, flatMap_append, flatMap_cons, mem_followed_append, mem_followed_append]
  refine .inr (.inr (.inr (.inl ⟨?_, hhead⟩)))
  rw [visitedPages, hfix]
  obtain ⟨front, hfront⟩ := getLast?_eq_some_iff.mp (getLast?_pagesUpTo hle hdvd hlast)
  simp only [hfront, filter_append, filter_singleton, hskip, Bool.not_false, cond_true,
    getLast?_concat]

/-- **The boot memory map.** For every memory map below 4 GiB and all used ranges that
`parse_memory_map` completes for, the regions are safe exactly if the condition holds. -/
theorem regionsSafe_iff_mapOk {data : ℕ → ℕ} {self : MemoryManager}
    (hentries : ∀ mmap ∈ entries, mmap.addr + mmap.len ≤ 2 ^ 32)
    (h : parseMemoryMap entries used data fuel = some self) :
    RegionsSafe entries used self.userPhysicalRegions ↔ MapOk entries used := by
  obtain ⟨hpages, hlower⟩ := flatMap_pageAddresses hentries h
  rw [regionsSafe_iff, mapOk_iff, forall_pages_iff, pairwise_disjoint_iff hlower,
    forall_pages_iff (P := fun page => ∀ range ∈ used,
      Disjoint (Set.Ico page (page + pageSize)) (Set.Ico range.start range.endAddress)), hpages]
  refine and_congr ⟨?_, ?_⟩ (and_congr_left' ?_)
  · rintro havailable before mmap after addr len rfl hfix hle hend hhead
    exact havailable _ (end_mem_countedPages (hentries mmap (by simp)) hfix hle hend hhead)
  · intro hok page hpage
    rcases mem_countedPages hentries hpage with hinside | ⟨before, mmap, after, addr, len, hsplit,
      hfix, hle, hskip, rfl, hhead⟩
    · exact hinside
    · exact hok before mmap after addr len hsplit hfix hle hskip hhead
  · refine forall₂_congr fun page hpage => forall₂_congr fun range hrange => ?_
    obtain ⟨mmap, -, hvisited⟩ := mem_flatMap.mp (mem_of_mem_followed hpage).1
    exact disjoint_used_iff (mem_visitedPages hvisited).1 hrange

/-- One available entry above the low memory. -/
theorem regionsSafe_iff_mapOk_one_entry :
    ∃ self, parseMemoryMap [⟨0x200000, 0x3000, 1⟩] [⟨0, 0x100000⟩] (fun _ => 0xc0100004) 5 =
        some self ∧ self.userPhysicalPages = 3 ∧
      RegionsSafe [⟨0x200000, 0x3000, 1⟩] [⟨0, 0x100000⟩] self.userPhysicalRegions := by
  have heval : (parseMemoryMap [⟨0x200000, 0x3000, 1⟩] [⟨0, 0x100000⟩] (fun _ => 0xc0100004) 5).map
      MemoryManager.userPhysicalPages = some 3 := by
    decide +kernel
  have hcounted : countedPages [⟨0, 0x100000⟩] [⟨0x200000, 0x3000, 1⟩] =
      [0x200000, 0x201000, 0x202000] := by
    decide +kernel
  obtain ⟨self, hparse, hpages⟩ := map_eq_some_iff.mp heval
  refine ⟨self, hparse, hpages, (regionsSafe_iff_mapOk (by simp) hparse).mpr ⟨?_, ?_, ?_⟩⟩
  · intro before mmap after addr len hsplit _ _ _ hhead
    -- There is no second entry.
    have hlength := congrArg List.length hsplit
    simp only [length_append, length_cons, length_nil] at hlength
    have hafter : after = [] := eq_nil_of_length_eq_zero (by omega)
    simp [hafter] at hhead
  · rw [hcounted]
    simp
  · rw [hcounted]
    decide

/-- Between the two entries there is one page that does not belong to either. It is visited as the
page at the end of the first entry, the second entry begins with the next page, and all pages are
assigned to one region. -/
theorem gap_between_entries_counted :
    ∃ self, parseMemoryMap [⟨0x200000, 0x2000, 1⟩, ⟨0x203000, 0x2000, 1⟩] [⟨0, 0x100000⟩]
        (fun _ => 0xc0100004) 5 = some self ∧
      ¬RegionsSafe [⟨0x200000, 0x2000, 1⟩, ⟨0x203000, 0x2000, 1⟩] [⟨0, 0x100000⟩]
        self.userPhysicalRegions := by
  have heval : (parseMemoryMap [⟨0x200000, 0x2000, 1⟩, ⟨0x203000, 0x2000, 1⟩] [⟨0, 0x100000⟩]
      (fun _ => 0xc0100004) 5).map (fun self => self.userPhysicalRegions.map
        fun region => (region.lower, region.pages)) = some [(0x200000, 5)] := by
    decide +kernel
  obtain ⟨self, hparse, hregions⟩ := map_eq_some_iff.mp heval
  refine ⟨self, hparse, fun hsafe => ?_⟩
  obtain ⟨region, hmem, hregion⟩ := List.mem_map.mp (hregions ▸ mem_singleton_self (0x200000, 5))
  obtain ⟨hlower, hpages⟩ := Prod.mk.inj hregion
  have havailable := hsafe.available region hmem 2 (by omega)
  simp [Available, PhysicalRegion.address, pageSize, hlower] at havailable

end MemoryManager

end Kernel
