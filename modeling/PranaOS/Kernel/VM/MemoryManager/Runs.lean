import PranaOS.Kernel.VM.MemoryManager
import PranaOS.ToMathlib.Run

/-!
# Accounting of user physical pages

A run commits and uncommits pages, allocates pages from both pools and deallocates pages in use. The
counters of the memory manager agree with the physical regions in every state that is reached, and
an allocation from the committed pool finds a page, as long as

* a page is allocated only when one can be found (`PhysicalRegion.Findable`): the search ignores the
  pages whose bits are in the last byte of a bitmap if the bitmap does not use all of that byte;
* a page is deallocated only when the first region that contains its address is the one it is from:
  `PhysicalRegion::contains` includes the upper bound, where the next region may begin.

If the page counts of all regions are multiples of eight, a page can be found whenever one is free
(`Accounts.exists_findable`).
-/

namespace Kernel

open AK Transition Option List

namespace MemoryManager

/-- The calls. A page in use is given with the index of the region it is from. -/
inductive Op where
  | commit (pageCount : UInt32)
  | uncommit (pageCount : UInt32)
  | allocateCommitted (random : UInt8)
  | findFree (random : UInt8)
  | deallocate (index page : ℕ) (random : UInt8)

/-- The memory manager together with the pages in use, for each region. -/
structure State where
  manager : MemoryManager
  taken : ℕ → List ℕ

/-- The state before the first call. -/
def State.init (regions : List PhysicalRegion) : State := ⟨create regions, fun _ => []⟩

/-- The pages in use once a page has been found. -/
def give (taken : ℕ → List ℕ) : Option (ℕ × ℕ) → ℕ → List ℕ
  | none => taken
  | some (index, page) => Function.update taken index (page :: taken index)

variable (s : State)

/-- One call that completes. Only pages in use are deallocated. -/
def step : Op → Option State
  | .commit pageCount =>
    (s.manager.commitUserPhysicalPages pageCount.toNat).map fun result => ⟨result.2, s.taken⟩
  | .uncommit pageCount =>
    (s.manager.uncommitUserPhysicalPages pageCount.toNat).map fun manager => ⟨manager, s.taken⟩
  | .allocateCommitted random =>
    (s.manager.allocateCommittedUserPhysicalPage random).map fun result =>
      ⟨result.2, give s.taken (some result.1)⟩
  | .findFree random =>
    (s.manager.findFreeUserPhysicalPage false random).map fun result =>
      ⟨result.2, give s.taken result.1⟩
  | .deallocate index page random =>
    if page ∈ s.taken index then
      (s.manager.deallocateUserPhysicalPage page random).map fun manager =>
        ⟨manager, Function.update s.taken index ((s.taken index).erase page)⟩
    else none

/-- A page can be found in some region. -/
def Findable (s : State) : Prop := ∃ region ∈ s.manager.userPhysicalRegions, region.Findable

/-- The condition under which a call is handled correctly. -/
def StepOk : Op → Prop
  | .allocateCommitted _ => Findable s
  | .findFree _ => s.manager.userPhysicalPagesUncommitted = 0 ∨ Findable s
  | .deallocate index page _ =>
    s.manager.userPhysicalRegions.findIdx? (·.contains page) = some index
  | _ => True

instance  : Decidable (Findable s) :=
  inferInstanceAs (Decidable (∃ region ∈ s.manager.userPhysicalRegions, region.Findable))

instance  : (op : Op) → Decidable (StepOk s op)
  | .commit _ => isTrue trivial
  | .uncommit _ => isTrue trivial
  | .allocateCommitted _ => inferInstanceAs (Decidable (Findable s))
  | .findFree _ => inferInstanceAs (Decidable (_ ∨ Findable s))
  | .deallocate index _ _ => inferInstanceAs (Decidable (List.findIdx? _ _ = some index))

/-- The counters add up, and the pages that are free in the regions are those of the two pools. -/
structure AccountingOk (s : State) : Prop where
  sum_eq : s.manager.userPhysicalPagesUsed + s.manager.userPhysicalPagesCommitted +
    s.manager.userPhysicalPagesUncommitted = s.manager.userPhysicalPages
  free_eq : (s.manager.userPhysicalRegions.map PhysicalRegion.freePages).sum =
    s.manager.userPhysicalPagesCommitted + s.manager.userPhysicalPagesUncommitted

/-- The counters agree with the regions if `charged` pages are added to them that were taken out of a
pool and have not been found yet. -/
structure Accounts (s : State) (charged : ℕ) : Prop where
  wellFormed : ∀ index region, s.manager.userPhysicalRegions[index]? = some region →
    WellFormed region (s.taken index)
  total_eq : s.manager.userPhysicalPages =
    (s.manager.userPhysicalRegions.map PhysicalRegion.pages).sum
  total_lt : s.manager.userPhysicalPages < 2 ^ 32
  sum_eq : s.manager.userPhysicalPagesUsed + s.manager.userPhysicalPagesCommitted +
    s.manager.userPhysicalPagesUncommitted + charged = s.manager.userPhysicalPages
  free_eq : (s.manager.userPhysicalRegions.map PhysicalRegion.freePages).sum =
    s.manager.userPhysicalPagesCommitted + s.manager.userPhysicalPagesUncommitted + charged

variable {s s' : State} {op : Op} {charged : ℕ} {random : UInt8}

theorem Accounts.accountingOk (h : Accounts s 0) : AccountingOk s := ⟨h.sum_eq, h.free_eq⟩

theorem Accounts.exists_wellFormed (h : Accounts s charged) :
    ∀ region ∈ s.manager.userPhysicalRegions, ∃ taken, WellFormed region taken := by
  intro region hregion
  obtain ⟨index, hindex⟩ := getElem?_of_mem hregion
  exact ⟨_, h.wellFormed index region hindex⟩

/-! ## A region changes -/

/-- The free pages of a region change by as much as its pages in use, and so do the counters. -/
theorem Accounts.set (h : Accounts s charged) {index used uncommitted charged' : ℕ}
    {region region' : PhysicalRegion} {taken' : List ℕ}
    (hregion : s.manager.userPhysicalRegions[index]? = some region)
    (htracks : region'.Tracks taken' ∧ region.SameShape region')
    (hused : used + (s.taken index).length = s.manager.userPhysicalPagesUsed + taken'.length)
    (hpools : uncommitted + charged' + taken'.length =
      s.manager.userPhysicalPagesUncommitted + charged + (s.taken index).length) :
    Accounts ⟨{ s.manager with
      userPhysicalRegions := s.manager.userPhysicalRegions.set index region'
      userPhysicalPagesUsed := used
      userPhysicalPagesUncommitted := uncommitted }, Function.update s.taken index taken'⟩
      charged' := by
  obtain ⟨htracks, hshape⟩ := htracks
  have hwell := h.wellFormed index region hregion
  have hpages := sum_map_set hregion region' PhysicalRegion.pages
  have hfree := sum_map_set hregion region' PhysicalRegion.freePages
  have hlen := hwell.tracks.freePages_add_length
  have hlen' := htracks.freePages_add_length
  rw [hshape.pages_eq] at hpages hlen'
  have hsum := h.sum_eq
  have hfreeEq := h.free_eq
  refine ⟨fun i r hr => ?_, h.total_eq.trans (Nat.add_right_cancel hpages).symm, h.total_lt,
    by simp only; omega, by simp only; omega⟩
  by_cases hi : i = index
  · subst hi
    simp only [getElem?_set_self', Option.map_eq_map, map_eq_some_iff] at hr
    obtain ⟨-, -, rfl⟩ := hr
    simp only [Function.update_self]
    exact ⟨htracks, hshape.bitmap_eq ▸ hwell.data_aligned⟩
  · simp only [getElem?_set_ne (Ne.symm hi)] at hr
    simp only [Function.update_of_ne hi]
    exact h.wellFormed i r hr

/-! ## Single calls -/

/-- A page that was charged to a pool is found if one can be found. -/
theorem Accounts.takeFreePage (h : Accounts s 1) (hfind : Findable s) (committed : Bool)
    (random : UInt8) :
    ∃ found manager, s.manager.takeFreePage committed random = some (some found, manager) ∧
      Accounts ⟨manager, give s.taken (some found)⟩ 0 := by
  rcases takeFreePageLoop_cases random h.exists_wellFormed with
    ⟨index, page, region, region', hregion, htake, hloop⟩ | ⟨hnone, -⟩
  · refine ⟨(index, page), { s.manager with
      userPhysicalRegions := s.manager.userPhysicalRegions.set index region'
      userPhysicalPagesUsed := (s.manager.userPhysicalPagesUsed + 1) % 2 ^ 32 },
      by simp [MemoryManager.takeFreePage, hloop], ?_⟩
    have hsum := h.sum_eq
    have hlt := h.total_lt
    refine h.set hregion ((h.wellFormed index region hregion).tracks.takeFreePage htake) ?_ ?_ <;>
      (rw [length_cons]; omega)
  · obtain ⟨region, hmem, hfind⟩ := hfind
    exact absurd hfind (hnone region hmem)

/-- Some page is in use if one is to be returned, so that the counter does not wrap around. -/
theorem Accounts.used_pos (h : Accounts s 0) {index page : ℕ} {region : PhysicalRegion}
    (hregion : s.manager.userPhysicalRegions[index]? = some region)
    (hpage : page ∈ s.taken index) : 0 < s.manager.userPhysicalPagesUsed := by
  have hlt : (s.manager.userPhysicalRegions.map PhysicalRegion.freePages).sum <
      (s.manager.userPhysicalRegions.map PhysicalRegion.pages).sum := by
    refine sum_lt_sum _ _ (fun r hr => ?_)
      ⟨region, mem_of_getElem? hregion, ?_⟩
    · obtain ⟨taken, hwell⟩ := h.exists_wellFormed r hr
      exact Nat.le.intro hwell.tracks.freePages_add_length
    · have hlen := (h.wellFormed index region hregion).tracks.freePages_add_length
      have hpos := length_pos_of_mem hpage
      omega
  have hsum := h.sum_eq
  have hpools := h.free_eq
  have htotal := h.total_eq
  omega

/-- A page that is returned to the region it is from is free and uncommitted. -/
theorem Accounts.deallocateUserPhysicalPage (h : Accounts s 0) {index page : ℕ}
    {manager : MemoryManager} (hpage : page ∈ s.taken index)
    (hindex : s.manager.userPhysicalRegions.findIdx? (·.contains page) = some index)
    (hdeallocate : s.manager.deallocateUserPhysicalPage page random = some manager) :
    Accounts ⟨manager, Function.update s.taken index ((s.taken index).erase page)⟩ 0 := by
  simp only [MemoryManager.deallocateUserPhysicalPage, hindex, bind_eq_bind,
    bind_some, bind_eq_some_iff] at hdeallocate
  obtain ⟨region, hregion, region', hreturn, ⟨⟩⟩ := hdeallocate
  have hused := h.used_pos hregion hpage
  have hpos := length_pos_of_mem hpage
  have hsum := h.sum_eq
  have hlt := h.total_lt
  rw [sub32_eq_sub hused (by omega), Nat.mod_eq_of_lt (by omega)]
  refine h.set hregion ((h.wellFormed index region hregion).tracks.returnPage hpage hreturn) ?_ ?_ <;>
    (rw [length_erase_of_mem hpage]; omega)

/-- Pages that move from one pool to the other leave everything else as it is. -/
theorem Accounts.move (h : Accounts s charged) (committed uncommitted charged' : ℕ)
    (hmove : committed + uncommitted + charged' = s.manager.userPhysicalPagesCommitted +
      s.manager.userPhysicalPagesUncommitted + charged) :
    Accounts ⟨{ s.manager with
      userPhysicalPagesCommitted := committed
      userPhysicalPagesUncommitted := uncommitted }, s.taken⟩ charged' where
  wellFormed := h.wellFormed
  total_eq := h.total_eq
  total_lt := h.total_lt
  sum_eq := by
    have hsum := h.sum_eq
    simp only
    omega
  free_eq := h.free_eq.trans hmove.symm

/-- An allocation from the committed pool finds a page. -/
theorem Accounts.allocateCommitted (h : Accounts s 0) (hfind : Findable s)
    (hpos : 0 < s.manager.userPhysicalPagesCommitted) (random : UInt8) :
    ∃ s', step s (.allocateCommitted random) = some s' ∧ Accounts s' 0 := by
  have hcharged := h.move (s.manager.userPhysicalPagesCommitted - 1)
    s.manager.userPhysicalPagesUncommitted 1 (by omega)
  obtain ⟨found, manager, htake, hafter⟩ := hcharged.takeFreePage hfind true random
  refine ⟨_, ?_, hafter⟩
  simp [step, allocateCommittedUserPhysicalPage, findFreeUserPhysicalPage, hpos, htake]

/-- An allocation from the uncommitted pool finds a page unless the pool is empty. -/
theorem Accounts.findFree (h : Accounts s 0)
    (hfind : s.manager.userPhysicalPagesUncommitted = 0 ∨ Findable s) (random : UInt8) :
    ∃ s', step s (.findFree random) = some s' ∧ Accounts s' 0 := by
  by_cases hpool : s.manager.userPhysicalPagesUncommitted = 0
  · exact ⟨s, by simp [step, findFreeUserPhysicalPage, hpool, give], h⟩
  · have hcharged := h.move s.manager.userPhysicalPagesCommitted
      (s.manager.userPhysicalPagesUncommitted - 1) 1 (by omega)
    obtain ⟨found, manager, htake, hafter⟩ :=
      hcharged.takeFreePage (hfind.resolve_left hpool) false random
    refine ⟨_, ?_, hafter⟩
    simp [step, findFreeUserPhysicalPage, hpool, htake]

/-- A page can be found if there is one in a pool and the bitmaps use all of their last bytes. -/
theorem Accounts.exists_findable (h : Accounts s 0)
    (hdvd : ∀ region ∈ s.manager.userPhysicalRegions, 8 ∣ region.pages)
    (hpos : 0 < s.manager.userPhysicalPagesCommitted + s.manager.userPhysicalPagesUncommitted) :
    Findable s := by
  by_contra hnone
  have hzero : (s.manager.userPhysicalRegions.map PhysicalRegion.freePages).sum = 0 := by
    refine sum_eq_zero fun free hfree => ?_
    obtain ⟨region, hregion, rfl⟩ := List.mem_map.mp hfree
    obtain ⟨taken, hwell⟩ := h.exists_wellFormed region hregion
    by_contra hne
    exact hnone ⟨region, hregion,
      hwell.tracks.findable_of_dvd (hdvd region hregion) (Nat.pos_of_ne_zero hne)⟩
  have hpools := h.free_eq
  omega

/-! ## Runs -/

/-- A call that meets its condition keeps the counters in agreement with the regions. -/
theorem step_accounts (hs : Accounts s 0) (hok : StepOk s op) (h : step s op = some s') :
    Accounts s' 0 := by
  cases op with
  | commit pageCount =>
    obtain ⟨⟨done, manager⟩, hcommit, rfl⟩ := map_eq_some_iff.mp h
    simp only [commitUserPhysicalPages, verify_bind_eq_some] at hcommit
    obtain ⟨-, hcommit⟩ := hcommit
    have hsum := hs.sum_eq
    have hlt := hs.total_lt
    split at hcommit
    next =>
      obtain ⟨-, rfl⟩ := Prod.mk.inj (some.inj hcommit)
      exact hs
    next hpool =>
      obtain ⟨-, rfl⟩ := Prod.mk.inj (some.inj hcommit)
      exact hs.move _ _ 0 (by omega)
  | uncommit pageCount =>
    obtain ⟨manager, huncommit, rfl⟩ := map_eq_some_iff.mp h
    simp only [uncommitUserPhysicalPages, verify_bind_eq_some] at huncommit
    obtain ⟨-, hpool, ⟨⟩⟩ := huncommit
    have hsum := hs.sum_eq
    have hlt := hs.total_lt
    exact hs.move _ _ 0 (by omega)
  | allocateCommitted random =>
    have hpos : 0 < s.manager.userPhysicalPagesCommitted := by
      by_contra hempty
      simp [step, allocateCommittedUserPhysicalPage, findFreeUserPhysicalPage, verify,
        Nat.eq_zero_of_not_pos hempty] at h
    obtain ⟨t, hstep, ht⟩ := hs.allocateCommitted hok hpos random
    exact some.inj (hstep.symm.trans h) ▸ ht
  | findFree random =>
    obtain ⟨t, hstep, ht⟩ := hs.findFree hok random
    exact some.inj (hstep.symm.trans h) ▸ ht
  | deallocate index page random =>
    obtain ⟨hpage, h⟩ := ite_none_right_eq_some.mp h
    obtain ⟨manager, hdeallocate, rfl⟩ := map_eq_some_iff.mp h
    exact hs.deallocateUserPhysicalPage hpage hok hdeallocate

/-- A region as `parse_memory_map` leaves it. `kmalloc` puts its bitmap at an aligned address. -/
def Finalized (region : PhysicalRegion) : Prop :=
  ∃ lower upper data, pageSize ∣ lower ∧ lower ≤ upper ∧ upper < 2 ^ 32 ∧ 4 ∣ data ∧
    (PhysicalRegion.create lower upper).finalizeCapacity data = some region

theorem Finalized.wellFormed {region : PhysicalRegion} (h : Finalized region) :
    WellFormed region [] := by
  obtain ⟨lower, upper, data, hlower, hle, hupper, hdata, hregion⟩ := h
  refine ⟨PhysicalRegion.tracks_finalizeCapacity hlower hle hupper hregion, ?_⟩
  simp only [PhysicalRegion.finalizeCapacity, verify_bind_eq_some] at hregion
  obtain ⟨-, -, ⟨⟩⟩ := hregion
  exact hdata

theorem accounts_init {regions : List PhysicalRegion}
    (hregions : ∀ region ∈ regions, Finalized region)
    (htotal : (regions.map PhysicalRegion.pages).sum < 2 ^ 32) : Accounts (.init regions) 0 where
  wellFormed index region hregion := (hregions region (mem_of_getElem? hregion)).wellFormed
  total_eq := Nat.mod_eq_of_lt htotal
  total_lt := Nat.mod_lt _ (by decide)
  sum_eq := Nat.zero_add _
  free_eq := by
    have hfree : regions.map PhysicalRegion.freePages = regions.map PhysicalRegion.pages :=
      map_congr_left fun region hregion =>
        (hregions region hregion).wellFormed.tracks.freePages_add_length
    simp only [State.init, create, hfree, Nat.mod_eq_of_lt htotal, Nat.zero_add, Nat.add_zero]

/-- **Accounting of user physical pages.** In every state reached by a run whose calls meet their
condition, the counters add up and agree with the regions. An allocation from the committed pool
then completes if a page can be found, which is always so if the page counts of the regions are
multiples of eight. -/
theorem accountingOk_of_meets {regions : List PhysicalRegion}
    (hregions : ∀ region ∈ regions, Finalized region)
    (htotal : (regions.map PhysicalRegion.pages).sum < 2 ^ 32) {ops : List Op} {t : State}
    (hmeets : Meets step StepOk (.init regions) ops) (hrun : run step (.init regions) ops = some t) :
    AccountingOk t ∧
      (0 < t.manager.userPhysicalPagesCommitted → Findable t →
        ∀ random, ∃ t', step t (.allocateCommitted random) = some t') ∧
      (0 < t.manager.userPhysicalPagesCommitted →
        (∀ region ∈ t.manager.userPhysicalRegions, 8 ∣ region.pages) → Findable t) := by
  have ht : Accounts t 0 := run_induction (I := fun s => Accounts s 0)
    (fun s op s' hs hok h => step_accounts hs hok h) (accounts_init hregions htotal) hmeets hrun
  refine ⟨ht.accountingOk, fun hpos hfind random => ?_, fun hpos hdvd => ?_⟩
  · obtain ⟨t', hstep, -⟩ := ht.allocateCommitted hfind hpos random
    exact ⟨t', hstep⟩
  · exact ht.exists_findable hdvd (by omega)

/-- A region of eight pages: two pages are committed, one is allocated from each pool and the first is
deallocated. -/
theorem accountingOk_of_meets_eight_pages :
    ∃ region t, (PhysicalRegion.create 0x100000 0x108000).finalizeCapacity 0xc0100004 = some region ∧
      run step (.init [region]) [.commit 2, .allocateCommitted 0, .findFree 0,
        .deallocate 0 0x100000 0] = some t ∧ t.taken 0 = [0x101000] ∧ AccountingOk t ∧
      ∀ random, ∃ t', step t (.allocateCommitted random) = some t' := by
  have heval : (((PhysicalRegion.create 0x100000 0x108000).finalizeCapacity 0xc0100004).bind
      fun region => (run step (.init [region]) [.commit 2, .allocateCommitted 0, .findFree 0,
        .deallocate 0 0x100000 0]).map fun t => (t.taken 0, t.manager.userPhysicalPagesCommitted,
          decide (Findable t), decide (region.pages < 2 ^ 32), decide (Meets step StepOk
            (.init [region]) [.commit 2, .allocateCommitted 0, .findFree 0,
              .deallocate 0 0x100000 0]))) = some ([0x101000], 1, true, true, true) := by
    decide +kernel
  obtain ⟨region, hregion, heval⟩ := bind_eq_some_iff.mp heval
  obtain ⟨t, hrun, heval⟩ := map_eq_some_iff.mp heval
  simp only [Prod.mk.injEq, decide_eq_true_eq] at heval
  obtain ⟨htaken, hcommitted, hfind, hpages, hmeets⟩ := heval
  have hfinalized : ∀ r ∈ [region], Finalized r := by
    intro r hr
    rw [mem_singleton.mp hr]
    exact ⟨_, _, _, by decide, by decide, by decide, by decide, hregion⟩
  obtain ⟨hok, hallocate, -⟩ := accountingOk_of_meets hfinalized (by simpa using hpages) hmeets hrun
  exact ⟨region, t, hregion, hrun, htaken, hok, hallocate (by omega) hfind⟩

/-- In a region of four pages no page can be found, since none of their bits is in a byte that the
bitmap uses completely. After one page has been committed its allocation fails, and an allocation
without a commitment returns no page but takes one out of the uncommitted pool. -/
theorem committed_allocation_fails :
    ∃ region s t, (PhysicalRegion.create 0x100000 0x104000).finalizeCapacity 0xc0100004 =
        some region ∧
      run step (.init [region]) [.commit 1] = some s ∧ s.manager.userPhysicalPagesCommitted = 1 ∧
      step s (.allocateCommitted 0) = none ∧
      run step (.init [region]) [.findFree 0] = some t ∧ ¬AccountingOk t := by
  have heval : (((PhysicalRegion.create 0x100000 0x104000).finalizeCapacity 0xc0100004).bind
      fun region => (run step (.init [region]) [.commit 1]).bind fun s =>
        (run step (.init [region]) [.findFree 0]).map fun t =>
          (s.manager.userPhysicalPagesCommitted, (step s (.allocateCommitted 0)).isNone,
            t.manager.userPhysicalPages, t.manager.userPhysicalPagesUsed,
            t.manager.userPhysicalPagesCommitted, t.manager.userPhysicalPagesUncommitted)) =
      some (1, true, 4, 0, 0, 3) := by
    decide +kernel
  obtain ⟨region, hregion, heval⟩ := bind_eq_some_iff.mp heval
  obtain ⟨s, hs, heval⟩ := bind_eq_some_iff.mp heval
  obtain ⟨t, ht, heval⟩ := map_eq_some_iff.mp heval
  simp only [Prod.mk.injEq, isNone_iff_eq_none] at heval
  obtain ⟨hcommitted, hstep, htotal, hused, hcommitted', huncommitted⟩ := heval
  refine ⟨region, s, t, hregion, hs, hcommitted, hstep, ht, fun hok => ?_⟩
  have hsum := hok.sum_eq
  omega

end MemoryManager

end Kernel
