import PranaOS.Kernel.Syscalls.Fork

/-!
# What becomes of the flags of regions

The access flags of a region record what the region may be used for, and what it could ever be used
for (`HasBeenWritable` and the like). This module says what each system call does to them.

A region can be cut into parts or replaced, each time as a new object. `Continues` says which region of
the address space after a call continues which region of the one before it, and `Evolves` says by which
change. All calls exchange regions for others (`evolves_of_exchange`).

* `sysMmap_evolves`, `sysMunmap_evolves`: the flags of regions that are there are not changed, also not
  those of parts of regions.
* `sysMprotect_evolves`: the flags are changed as the protection says, if that is valid.
* `sysMremap_evolves`: the new region is made from the protection of the old one.
-/

namespace Kernel

open AK Option List

namespace Region

/-! ## Access flags -/

variable (access : BitVec 8)

/-- The flags record what the region is used for now, and it is not both writable and executable. -/
def AccessOk : Prop :=
  initialAccess access = access ∧
    ¬(hasFlag access Access.write = true ∧ hasFlag access Access.execute = true)

instance  : Decidable (AccessOk access) := inferInstanceAs (Decidable (_ ∧ _))

/-- The access flags after `set_readable`, `set_writable` and `set_executable`. -/
def protect (readable writable executable : Bool) : BitVec 8 :=
  let access := if readable then access ||| 0x11 else access &&& 0xfe
  let access := if writable then access ||| 0x22 else access &&& 0xfd
  if executable then access ||| 0x44 else access &&& 0xfb

theorem access_setProt (self : Region) (prot : BitVec 32) :
    (self.setProt prot).access =
      protect self.access (hasFlag prot protRead) (hasFlag prot protWrite)
        (hasFlag prot protExec) := by
  unfold setProt protect
  cases hasFlag prot protRead <;> cases hasFlag prot protWrite <;>
    cases hasFlag prot protExec <;> rfl

theorem accessOk_protect : ∀ {access : BitVec 8} {readable writable executable : Bool},
    AccessOk access → (writable && executable) = false →
      AccessOk (protect access readable writable executable) := by
  decide +kernel

theorem hasFlag_execute_protect : ∀ {access : BitVec 8} {readable writable executable : Bool},
    hasFlag (protect access readable writable executable) Access.execute = executable := by
  decide +kernel

/-- The region `r'` has been whatever `r` has been. -/
structure KeepsHistory (r r' : Region) : Prop where
  readable : r.hasBeenReadable = true → r'.hasBeenReadable = true
  writable : r.hasBeenWritable = true → r'.hasBeenWritable = true
  executable : r.hasBeenExecutable = true → r'.hasBeenExecutable = true

theorem hasFlag_of_history {access access' flag : BitVec 8}
    (h : access' &&& 0x70 &&& access = access &&& 0x70) (hflag : 0x70 &&& flag = flag)
    (hhas : hasFlag access flag = true) : hasFlag access' flag = true := by
  have hand : access' &&& flag &&& access = access &&& flag := by
    have hmasked := congrArg (· &&& flag) h
    simp only [BitVec.and_assoc] at hmasked
    rw [BitVec.and_comm access flag, ← BitVec.and_assoc 0x70, hflag, BitVec.and_comm flag] at hmasked
    rw [BitVec.and_assoc, BitVec.and_comm flag, hmasked]
  simp only [hasFlag, bne_iff_ne, ne_eq] at hhas ⊢
  intro hzero
  have hnone : access &&& flag = 0 := by simpa [hzero] using hand.symm
  exact hhas hnone

variable {r r' : Region}

theorem keepsHistory_of_and_eq (h : r'.access &&& 0x70 &&& r.access = r.access &&& 0x70) :
    KeepsHistory r r' :=
  ⟨hasFlag_of_history h rfl, hasFlag_of_history h rfl, hasFlag_of_history h rfl⟩

theorem keepsHistory_of_eq (h : r'.access = r.access) : KeepsHistory r r' := by
  refine keepsHistory_of_and_eq ?_
  rw [h, BitVec.and_comm, ← BitVec.and_assoc, BitVec.and_self]

theorem history_protect : ∀ {access : BitVec 8} {readable writable executable : Bool},
    protect access readable writable executable &&& 0x70 &&& access = access &&& 0x70 := by
  decide +kernel

/-- Changing the protection of a region does not change what it has been. -/
theorem keepsHistory_setProt {prot : BitVec 32} (h : r'.access = (r.setProt prot).access) :
    KeepsHistory r r' := by
  refine keepsHistory_of_and_eq ?_
  rw [h, access_setProt]
  exact history_protect

theorem hasBeenWritable_of_write : ∀ {access : BitVec 8}, AccessOk access →
    hasFlag access Access.write = true → hasFlag access Access.hasBeenWritable = true := by
  decide +kernel

/-- A region made from a protection that is valid for `sys$mmap`. -/
theorem accessOk_protToRegionAccessFlags {prot : BitVec 32}
    (h : (hasFlag prot protWrite && hasFlag prot protExec) = false) :
    AccessOk (initialAccess (protToRegionAccessFlags prot)) := by
  unfold protToRegionAccessFlags
  revert h
  cases hasFlag prot protRead <;> cases hasFlag prot protWrite <;>
    cases hasFlag prot protExec <;> decide

/-- The flags of the region that `sys$mremap` makes from a region with the flags `access`. -/
def remappedAccess : BitVec 8 :=
  initialAccess (protToRegionAccessFlags (regionAccessFlagsToProt access))

theorem accessOk_remappedAccess : ∀ {access : BitVec 8}, AccessOk access →
    AccessOk (remappedAccess access) := by
  decide +kernel

theorem hasFlag_execute_remappedAccess : ∀ {access : BitVec 8},
    hasFlag (remappedAccess access) Access.execute = hasFlag access Access.execute := by
  decide +kernel

/-- The region that results from remapping knows that it has been writable only if the old one is
writable right now. -/
theorem hasBeenWritable_remappedAccess : ∀ {access : BitVec 8},
    hasFlag (remappedAccess access) Access.hasBeenWritable = hasFlag access Access.write := by
  decide +kernel

end Region

namespace Space

open Region

/-! ## Regions and what becomes of them -/

/-- The region `r'` of `space'` continues the region `r` of `space`: it is the same object, or a new
object inside the range of `r`, which is not there any more. -/
def Continues (space space' : Space) (r r' : Region) : Prop :=
  r'.id = r.id ∨
    (space.nextId ≤ r'.id ∧ (∀ x ∈ space'.regions, x.id ≠ r.id) ∧ r.range.contains r'.range = true)

/-- The regions are different objects, and their flags are in order. -/
def Sound (space : Space) : Prop := space.IdsOk ∧ ∀ r ∈ space.regions, AccessOk r.access

/-- `space` becomes the sound address space `space'`, and regions that are continued change by
`change`. -/
def Evolves (change : Region → Region → Prop) (space space' : Space) : Prop :=
  space'.Sound ∧
    ∀ r ∈ space.regions, ∀ r' ∈ space'.regions, space.Continues space' r r' → change r r'

/-- The flags stay as they are. -/
def SameAccess (r r' : Region) : Prop := r'.access = r.access

variable {self self' mid : Space} {region old : Region} {range : Range}
  {change : Region → Region → Prop} {removed added : List Region} {f : Region → Region}

/-- **Exchange of regions.** The regions `removed` are taken away, the regions `added` are created, and `f`
is applied to all regions that are there then. -/
theorem evolves_of_exchange (h : self.Sound) (hexchange : Exchanges self removed added mid)
    (hf : ∀ r, (f r).id = r.id ∧ (f r).range = r.range)
    (hregions : self'.regions = mid.regions.map f) (hnext : self'.nextId = mid.nextId)
    (hnew : ∀ r ∈ added, AccessOk (f r).access)
    (hkept : ∀ r ∈ self.regions, AccessOk (f r).access ∧ change r (f r))
    (hcut : ∀ r ∈ removed, ∀ x ∈ added, r.range.contains x.range = true → change r (f x)) :
    Evolves change self self' := by
  obtain ⟨⟨kept, hold, hperm⟩, -⟩ := id hexchange
  have horigin : ∀ {x}, x ∈ mid.regions → x ∈ added ∨ x ∈ self.regions := fun hx =>
    (mem_append.mp (hperm.mem_iff.mp hx)).imp_right fun hx =>
      hold.mem_iff.mpr (mem_append_right _ hx)
  have hids := (h.1.exchange hexchange).map fun r => (hf r).1
  rw [Evolves, Sound, IdsOk, hregions, hnext]
  refine ⟨⟨hids, List.forall_mem_map.mpr fun x hx => ?_⟩,
    fun r hr => List.forall_mem_map.mpr fun x hx hcontinues => ?_⟩
  · exact (horigin hx).elim (hnew x) fun hx => (hkept x hx).1
  rw [Continues, (hf x).1, (hf x).2, hregions] at hcontinues
  have hlt := h.1.1 r hr
  rcases hcontinues with heq | ⟨hle, hgone, hcontains⟩
  · -- a region that stays: it is not one of the new ones
    rcases horigin hx with hx | hx
    · have hle := hexchange.le_id hx
      omega
    · obtain rfl := h.1.eq_of_id hr x hx heq
      exact (hkept x hx).2
  · -- a new region: `r` is one of those that were taken away
    rcases horigin hx with hx | hx
    · rcases mem_append.mp (hold.mem_iff.mp hr) with hr | hr
      · exact hcut r hr x hx hcontains
      · have hmem := hperm.mem_iff.mpr (mem_append_right added hr)
        exact absurd (hf r).1 (hgone (f r) (List.mem_map_of_mem hmem))
    · have hlt' := h.1.1 x hx
      omega

/-- Regions are exchanged, and parts of a region have its flags. -/
theorem Sound.evolves (h : self.Sound) (hexchange : Exchanges self removed added mid)
    (hnew : ∀ r ∈ added, AccessOk r.access)
    (hcut : ∀ r ∈ removed, ∀ x ∈ added, r.range.contains x.range = true → x.access = r.access)
    (hf : ∀ r, (f r).id = r.id ∧ (f r).range = r.range ∧ (f r).access = r.access)
    (hregions : self'.regions = mid.regions.map f) (hnext : self'.nextId = mid.nextId) :
    Evolves SameAccess self self' := by
  refine evolves_of_exchange h hexchange (fun r => ⟨(hf r).1, (hf r).2.1⟩) hregions hnext
    (fun r hr => ?_) (fun r hr => ?_) fun r hr x hx hcontains => (hf x).2.2.trans (hcut r hr x hx hcontains)
  · rw [(hf r).2.2]
    exact hnew r hr
  · rw [SameAccess, (hf r).2.2]
    exact ⟨h.2 r hr, rfl⟩

theorem Sound.evolves_refl (h : self.Sound) : Evolves SameAccess self self :=
  h.evolves (f := id) (.refl self) (by simp) (by simp) (by simp) (by simp) rfl

theorem Evolves.mono {change' : Region → Region → Prop} (h : Evolves change self self')
    (hmono : ∀ {r r'}, change r r' → change' r r') : Evolves change' self self' :=
  ⟨h.1, fun r hr r' hr' hcontinues => hmono (h.2 r hr r' hr' hcontinues)⟩

/-! ## The parts of the system calls -/

/-- Looking for a region changes the cache only, which does not matter. -/
theorem findRegionFromRange_sound (h : self.Sound) {found : Option Region}
    (hfind : self.findRegionFromRange range = some (found, mid)) :
    mid.Sound ∧ (∀ region, found = some region → region ∈ mid.regions) ∧
      (Evolves change mid self' → Evolves change self self') := by
  rcases findRegionFromRange_cases hfind with ⟨rfl, rfl⟩ | ⟨region, hmem, rfl, rfl, -⟩
  · exact ⟨h, by simp, id⟩
  · exact ⟨h, fun r hr => some.inj hr ▸ hmem, id⟩

theorem findRegionsIntersectingLoop_mem {regions : List Region} {total : ℕ} {found : List Region}
    (h : findRegionsIntersectingLoop range regions total = some found) (hmem : region ∈ found) :
    region ∈ regions := by
  induction regions generalizing total found with
  | nil =>
    simp only [findRegionsIntersectingLoop, some.injEq] at h
    simp [← h] at hmem
  | cons r rest ih =>
    rw [findRegionsIntersectingLoop] at h
    split at h
    · obtain ⟨common, -, h⟩ := bind_eq_some_iff.mp h
      dsimp only at h
      split at h
      · simp only [Option.pure_def, some.injEq] at h
        rw [← h, mem_singleton] at hmem
        exact hmem ▸ mem_cons_self
      · obtain ⟨later, hlater, h⟩ := bind_eq_some_iff.mp h
        simp only [Option.pure_def, some.injEq] at h
        rw [← h, mem_cons] at hmem
        rcases hmem with rfl | hmem
        · exact mem_cons_self
        · exact mem_cons_of_mem _ (ih hlater hmem)
    · exact mem_cons_of_mem _ (ih h hmem)

theorem findRegionsIntersecting_mem {found : List Region}
    (h : self.findRegionsIntersecting range = some found) (hmem : region ∈ found) :
    region ∈ self.regions := by
  rw [findRegionsIntersecting] at h
  split at h
  · rw [some.injEq] at h
    simp [← h] at hmem
  · exact (dropWhile_sublist _).subset (findRegionsIntersectingLoop_mem h hmem)

/-- A part that is left when `taken` is cut out lies on one side of it. -/
theorem mem_carve {whole taken part : Range} {parts : List Range}
    (h : whole.carve taken = some parts) (hpart : part ∈ parts) :
    part.base < taken.base ∨ (part.base = taken.endAddr ∧ part.base < part.endAddr) := by
  rw [Range.carve, verify_bind_eq_some] at h
  obtain ⟨-, h⟩ := h
  split at h
  · simp only [Option.pure_def, some.injEq] at h
    simp [← h] at hpart
  · simp only [Option.pure_def, some.injEq] at h
    rw [← h, mem_append] at hpart
    rcases hpart with hpart | hpart
    · split at hpart
      next hlt =>
        rw [mem_singleton.mp hpart]
        exact .inl hlt
      next => simp at hpart
    · split at hpart
      next hlt =>
        rw [mem_singleton.mp hpart]
        have hend := whole.endAddr_lt
        refine .inr ⟨rfl, ?_⟩
        simp only [Range.endAddr] at hlt hend ⊢
        omega
      next => simp at hpart

/-- A region of the size of its intersection with `range` lies inside `range`. -/
theorem covered_of_intersect {whole common : Range} (h : whole.intersect range = some common)
    (hsize : common.size = whole.size) :
    range.base ≤ whole.base ∧ whole.endAddr ≤ range.endAddr := by
  rw [Range.intersect] at h
  split at h
  next heq => exact heq ▸ ⟨le_rfl, le_rfl⟩
  next =>
    simp only [verify_bind_eq_some] at h
    obtain ⟨hlt, ⟨⟩⟩ := h
    have hend : whole.endAddr ≤ whole.base + whole.size := Nat.mod_le _ _
    simp only at hsize
    omega

/-- A part that is left when `range` is cut out of a region is not inside a region that lies inside
`range`. -/
theorem not_contains_of_covered {covered part : Range}
    (hcovered : range.base ≤ covered.base ∧ covered.endAddr ≤ range.endAddr)
    (hpart : part.base < range.base ∨ (part.base = range.endAddr ∧ part.base < part.endAddr)) :
    covered.contains part = false := by
  rw [Range.contains]
  split
  · rfl
  · simp only [decide_eq_false_iff_not]
    omega

/-- Regions are taken away, and regions with their flags are created, none of which meets `range`. -/
def Cuts (range : Range) (space : Space) (removed added : List Region) (space' : Space) : Prop :=
  Exchanges space removed added space' ∧
    (∀ x ∈ added, ∃ r ∈ removed, x.access = initialAccess r.access) ∧
    (∀ r ∈ removed, ∀ x ∈ added, r.range.contains x.range = true → x.access = initialAccess r.access) ∧
    ∀ x ∈ added, x.range.base < range.base ∨
      (x.range.base = range.endAddr ∧ x.range.base < x.range.endAddr)

theorem Cuts.evolves (hcuts : Cuts range self removed added mid) (h : self.Sound)
    (hf : ∀ r, (f r).id = r.id ∧ (f r).range = r.range ∧ (f r).access = r.access)
    (hregions : self'.regions = mid.regions.map f) (hnext : self'.nextId = mid.nextId) :
    Evolves SameAccess self self' := by
  obtain ⟨hexchange, hparts, hcut, -⟩ := hcuts
  obtain ⟨⟨kept, hold, -⟩, -⟩ := id hexchange
  have hok : ∀ {r}, r ∈ removed → AccessOk r.access := fun hr =>
    h.2 _ (hold.mem_iff.mpr (mem_append_left _ hr))
  refine h.evolves hexchange (fun x hx => ?_) (fun r hr x hx hc => ?_) hf hregions hnext
  · obtain ⟨r, hr, haccess⟩ := hparts x hx
    rw [haccess, (hok hr).1]
    exact hok hr
  · exact (hcut r hr x hx hc).trans (hok hr).1

/-- Cutting `range` out of one region. -/
theorem cuts_of_carve (hexchange : Exchanges self [old] added self')
    (hcarve : old.range.carve range = some (added.map Region.range))
    (haccess : ∀ r ∈ added, r.access = initialAccess old.access) :
    Cuts range self [old] added self' := by
  refine ⟨hexchange, fun x hx => ⟨old, mem_singleton_self _, haccess x hx⟩, ?_, fun x hx => ?_⟩
  · intro r hr x hx _
    rw [mem_singleton.mp hr]
    exact haccess x hx
  · exact mem_carve hcarve (List.mem_map_of_mem hx)

theorem deallocateRegion_cuts (range : Range) (hunique : ∀ r ∈ self.regions, r.id = old.id → r = old)
    (hdeallocate : self.deallocateRegion old = some (true, self')) :
    Cuts range self [old] [] self' := by
  obtain ⟨mid, hexchange, -, hdestroy⟩ := deallocateRegion_eq_some hunique hdeallocate
  rcases destroyRegion_eq_some hdestroy with ⟨-, rfl⟩ | ⟨rangeAllocator, -, rfl⟩ <;>
    exact ⟨hexchange, by simp, by simp, by simp⟩

/-- The loop of `sys$munmap` removes the regions inside `range` and gives up when it has cut `range` out
of a region. -/
theorem munmapLoop_cuts {canGrow : Bool} {rest : List Region}
    (hrest : ∀ o ∈ rest, ∀ r ∈ self.regions, r.id = o.id → r = o) {result : Except Errno (List ℕ)}
    (hloop : munmapLoop canGrow range rest [] self = some (result, self')) :
    ∃ removed added, Cuts range self removed added self' := by
  induction rest generalizing self with
  | nil =>
    simp only [munmapLoop, some.injEq, Prod.mk.injEq] at hloop
    obtain ⟨-, rfl⟩ := hloop
    exact ⟨[], [], .refl self, by simp, by simp, by simp⟩
  | cons old rest ih =>
    have hold := hrest old mem_cons_self
    obtain ⟨common, hcommon, hloop⟩ := bind_eq_some_iff.mp hloop
    split at hloop
    next hsize =>
      -- the region lies inside the range
      obtain ⟨⟨success, mid⟩, hdeallocate, hloop⟩ := bind_eq_some_iff.mp hloop
      obtain ⟨rfl, hloop⟩ := verify_bind_eq_some.mp hloop
      obtain ⟨hexchange, -⟩ := deallocateRegion_cuts range hold hdeallocate
      obtain ⟨⟨kept, hself, hmid⟩, -⟩ := id hexchange
      have hsub : ∀ {r}, r ∈ mid.regions → r ∈ self.regions := fun hr =>
        hself.mem_iff.mpr (mem_append_right _ (hmid.mem_iff.mp hr))
      obtain ⟨removed, added, hexchange', hparts, hcut, hsides⟩ := ih
        (fun o ho r hr => hrest o (mem_cons_of_mem _ ho) r (hsub hr)) hloop
      refine ⟨old :: removed, added, hexchange.trans hexchange' (.inl rfl), fun x hx => ?_, ?_, hsides⟩
      · obtain ⟨r, hr, haccess⟩ := hparts x hx
        exact ⟨r, mem_cons_of_mem _ hr, haccess⟩
      · intro r hr x hx hcontains
        rcases mem_cons.mp hr with rfl | hr
        · -- no part of another region is inside this one
          have hnot := not_contains_of_covered (covered_of_intersect hcommon hsize) (hsides x hx)
          exact absurd hcontains (by simp [hnot])
        · exact hcut r hr x hx hcontains
    next =>
      rcases htake : self.takeRegion old with ⟨taken, mid⟩
      simp only [htake, bind_eq_bind, bind_eq_some_iff] at hloop
      obtain ⟨taken, htaken, ⟨split, last⟩, hsplit, hloop⟩ := hloop
      -- `try_append` returns `true` when it succeeds
      simp only [vectorTryAppend, if_true] at hloop
      obtain ⟨⟨⟩⟩ := hloop
      obtain ⟨-, added, hcarve, -, haccess, hexchange, -⟩ := takeSplit_eq_some hold htake htaken hsplit
      exact ⟨[old], added, cuts_of_carve hexchange hcarve haccess⟩

/-! ## The system calls -/

variable {promises : Option (List Pledge)} {result : Except Errno ℕ} {prot : BitVec 32}
  {inode : InodeState} {env : MmapEnv} {pagesMapped : Bool} {params : MmapParams}

/-- `sys$munmap` keeps the flags of all regions and of all parts of regions. -/
theorem sysMunmap_evolves {canGrow : Bool} {addr size : UInt32} (h : self.Sound)
    (hmunmap : sysMunmap self promises canGrow addr size = some (result, self')) :
    Evolves SameAccess self self' := by
  rcases sysMunmap_cases hmunmap with ⟨-, rfl⟩ | ⟨range, whole, mid, -, -, hfind, hcases⟩
  · exact h.evolves_refl
  obtain ⟨h, hwhole, hback⟩ := findRegionFromRange_sound h hfind
  refine hback ?_
  -- giving a range back and mapping regions does not matter
  have hgiven : ∀ {removed added last} (ids : List ℕ) (rangeAllocator : RangeAllocator),
      Cuts range mid removed added last →
      Evolves SameAccess mid ({ last with rangeAllocator }.mapRegions ids) := by
    intro removed added last ids rangeAllocator hcuts
    refine hcuts.evolves h (fun r => ?_) rfl rfl
    obtain ⟨hid, hrange, haccess, -⟩ := mapRegions_keeps ids r
    exact ⟨hid, hrange, haccess⟩
  rcases hcases with ⟨-, rfl⟩ | ⟨region, rfl, hdeallocate⟩ | ⟨region, hold, hcarve⟩ |
    ⟨regions, outcome, last, -, hfound, hloop, hcases⟩
  · exact h.evolves_refl
  · have hcuts := deallocateRegion_cuts range (h.1.eq_of_id (hwhole region rfl)) hdeallocate
    exact hcuts.evolves (f := id) h (by simp) (by simp) rfl
  · obtain ⟨added, last, rangeAllocator, hparts, haccess, hexchange, -, rfl⟩ :=
      munmapCarve_eq_some (h.1.eq_of_id (findRegionContaining_eq_some hold).1) hcarve
    exact hgiven _ rangeAllocator (cuts_of_carve hexchange hparts haccess)
  · obtain ⟨removed, added, hcuts⟩ := munmapLoop_cuts
      (fun o ho => h.1.eq_of_id (findRegionsIntersecting_mem hfound ho)) hloop
    rcases hcases with rfl | ⟨ids, given, hgive, rfl⟩
    · exact hcuts.evolves (f := id) h (by simp) (by simp) rfl
    · obtain ⟨rangeAllocator, -, hgive⟩ := bind_eq_some_iff.mp hgive
      cases hgive
      exact hgiven ids rangeAllocator hcuts

/-- The change that `sys$mprotect` makes to a region: none, or the new protection is valid for the
region and is set. -/
def ProtChange (prot : BitVec 32) (inode : InodeState) (r r' : Region) : Prop :=
  r'.access = r.access ∨
    (validateMmapProt prot r.stack r.vmobject.isAnonymous (some (r, inode.elfSharedObject)) = true ∧
      r'.access = (r.setProt prot).access)

theorem validateMmapProt_exclusive {stack anonymous : Bool} {with? : Option (Region × Bool)}
    (h : validateMmapProt prot stack anonymous with? = true) :
    (hasFlag prot protWrite && hasFlag prot protExec) = false := by
  simp only [validateMmapProt] at h
  split at h
  · simp at h
  · split at h
    next => simp at h
    next hboth => simpa using hboth

theorem validate_of_mprotectCheck (h : mprotectCheck region prot inode = none) :
    validateMmapProt prot region.stack region.vmobject.isAnonymous
      (some (region, inode.elfSharedObject)) = true := by
  rw [mprotectCheck] at h
  split at h
  · simp at h
  · split at h
    next => simp at h
    next hvalid => simpa using hvalid

theorem accessOk_setProt {stack anonymous : Bool} {with? : Option (Region × Bool)}
    (h : AccessOk region.access) (hvalid : validateMmapProt prot stack anonymous with? = true) :
    AccessOk (region.setProt prot).access := by
  rw [access_setProt]
  exact accessOk_protect h (validateMmapProt_exclusive hvalid)

/-- The carving path of `sys$mprotect` makes parts of a region, one of which gets the protection. -/
theorem mprotectCarve_evolves (h : self.Sound) (hmem : old ∈ self.regions)
    (hcheck : mprotectCheck old prot inode = none)
    (hcarve : mprotectCarve self old range prot = some self') :
    Evolves (ProtChange prot inode) self self' := by
  obtain ⟨parts, new, mid, -, -, -, haccess, hexchange, -, rfl⟩ :=
    mprotectCarve_eq_some (h.1.eq_of_id hmem) hcarve
  have hok := h.2 old hmem
  have hvalid := validate_of_mprotectCheck hcheck
  -- the flags of the parts after the call
  have hset : ∀ r ∈ parts ++ [new], AccessOk (if r.id = new.id then r.setProt prot else r).access ∧
      ProtChange prot inode old (if r.id = new.id then r.setProt prot else r) := by
    intro r hr
    have hr := (haccess r hr).trans hok.1
    split
    · rw [ProtChange, access_setProt, access_setProt, hr, ← access_setProt]
      exact ⟨accessOk_setProt hok hvalid, .inr ⟨hvalid, rfl⟩⟩
    · exact ⟨hr ▸ hok, .inl hr⟩
  have hmapped := fun r => mapRegions_keeps (new.id :: parts.map Region.id)
    (if r.id = new.id then r.setProt prot else r)
  rw [mapRegions, updateRegion, List.map_map]
  refine evolves_of_exchange h hexchange (fun r => ?_) rfl rfl (fun r hr => ?_) (fun r hr => ?_)
    fun r hr x hx _ => ?_
  · have hkeeps := setProt_keeps new.id prot r
    exact ⟨(hmapped r).1.trans hkeeps.1, (hmapped r).2.1.trans hkeeps.2.1⟩
  · exact (hmapped r).2.2.1 ▸ (hset r hr).1
  · have hlt := h.1.1 r hr
    have hle := hexchange.le_id (mem_append_right parts (mem_singleton_self new))
    have hne : r.id ≠ new.id := by omega
    rw [ProtChange, Function.comp_apply, (hmapped r).2.2.1, if_neg hne]
    exact ⟨h.2 r hr, .inl rfl⟩
  · rw [mem_singleton.mp hr, ProtChange, Function.comp_apply, (hmapped x).2.2.1]
    exact (hset x hx).2

theorem sysMprotect_evolves {addr size : UInt32} (h : self.Sound)
    (hmprotect : sysMprotect self promises addr size prot inode = some (result, self')) :
    Evolves (ProtChange prot inode) self self' := by
  have hsame : ∀ {r r'}, SameAccess r r' → ProtChange prot inode r r' := fun hr => .inl hr
  rcases sysMprotect_cases hmprotect with ⟨-, rfl⟩ | ⟨range, whole, mid, -, -, hfind, hcases⟩
  · exact h.evolves_refl.mono hsame
  obtain ⟨h, hwhole, hback⟩ := findRegionFromRange_sound h hfind
  refine hback ?_
  rcases hcases with rfl | ⟨region, rfl, hcheck, rfl⟩ | ⟨region, hold, hcheck, hcarve⟩
  · exact h.evolves_refl.mono hsame
  · have hvalid := validate_of_mprotectCheck hcheck
    refine evolves_of_exchange h (.refl mid) (fun r => ?_) rfl rfl (by simp) (fun r hr => ?_) (by simp)
    · exact (setProt_keeps region.id prot r).imp_right And.left
    · split
      next hid =>
        obtain rfl := h.1.eq_of_id (hwhole region rfl) r hr hid
        exact ⟨accessOk_setProt (h.2 r hr) hvalid, .inr ⟨hvalid, rfl⟩⟩
      next => exact ⟨h.2 r hr, .inl rfl⟩
  · exact mprotectCarve_evolves h (findRegionContaining_eq_some hold).1 hcheck hcarve

/-- Only regions with the flags that belong to a protection were created. -/
def Creates (prot : BitVec 32) (space space' : Space) : Prop :=
  ∃ added, Exchanges space [] added space' ∧
    ∀ r ∈ added, r.access = initialAccess (protToRegionAccessFlags prot)

theorem creates_self : Creates prot self self := ⟨[], .refl self, by simp⟩

theorem creates_addRegion (hid : region.id = self.nextId)
    (haccess : region.access = initialAccess (protToRegionAccessFlags prot)) :
    Creates prot self (self.addRegion region) :=
  ⟨[region], addRegion_exchanges hid, by simpa using haccess⟩

theorem allocateRegion_creates {result : Except Errno Region}
    (h : self.allocateRegion range prot env = some (result, self')) : Creates prot self self' := by
  rw [allocateRegion, verify_bind_eq_some] at h
  obtain ⟨-, h⟩ := h
  simp only [ite_eq_iff, bind_eq_bind, bind_eq_some_iff] at h
  obtain ⟨-, ⟨⟩⟩ | ⟨-, created, hcreated, ⟨-, destroyed, hdestroy, ⟨⟩⟩ | ⟨-, ⟨⟩⟩⟩ := h
  · exact creates_self
  · -- the region is destroyed before it is added
    rcases destroyRegion_eq_some hdestroy with ⟨-, rfl⟩ | ⟨rangeAllocator, -, rfl⟩ <;>
      exact creates_self
  · obtain ⟨hid, -, -, haccess⟩ := createUserAccessible_eq_some hcreated
    exact creates_addRegion hid haccess

theorem allocateRegionWithVMObject_creates {vmobject : VMObject} {offset : ℕ}
    {shared : Bool} {result : Except Errno Region}
    (h : self.allocateRegionWithVMObject range vmobject offset prot shared pagesMapped =
      some (result, self')) : Creates prot self self' := by
  rw [allocateRegionWithVMObject, verify_bind_eq_some] at h
  obtain ⟨-, h⟩ := h
  simp only [ite_eq_iff, bind_eq_bind, bind_eq_some_iff] at h
  obtain ⟨-, ⟨⟩⟩ | ⟨-, ⟨-, ⟨⟩⟩ | ⟨-, ⟨-, ⟨⟩⟩ | ⟨-, created, hcreated, h⟩⟩⟩ := h
  iterate 3 exact creates_self
  obtain ⟨hid, -, -, haccess⟩ := createUserAccessible_eq_some hcreated
  -- the region stays even if its pages cannot be mapped
  obtain ⟨-, ⟨⟩⟩ | ⟨-, ⟨⟩⟩ := h <;> exact creates_addRegion hid haccess

theorem mmapFile_creates {result : Except Errno Region}
    (h : mmapFile self params env range = some (result, self')) :
    Creates params.prot self self' := by
  have hnone : ∀ {errno}, some (Except.error errno, self) = some (result, self') →
      Creates params.prot self self' := by
    intro errno heq
    cases heq
    exact creates_self
  simp only [mmapFile] at h
  repeat' split at h
  all_goals first
    | exact hnone h
    | exact allocateRegionWithVMObject_creates h

theorem allocateRange_eq_some {vaddr size alignment : ℕ} {result : Option Range}
    (h : self.allocateRange vaddr size alignment = some (result, self')) :
    ∃ rangeAllocator, self' = { self with rangeAllocator } := by
  obtain ⟨rounded, -, h⟩ := bind_eq_some_iff.mp h
  split at h <;>
  · obtain ⟨allocated, -, h⟩ := bind_eq_some_iff.mp h
    cases h
    exact ⟨_, rfl⟩

theorem mmapRange_eq_some {random : ℕ → UInt32} {roundedSize : ℕ} {result : Option Range}
    (h : mmapRange self params random roundedSize = some (result, self')) :
    ∃ rangeAllocator, self' = { self with rangeAllocator } := by
  rw [mmapRange] at h
  split at h
  · obtain ⟨allocated, -, h⟩ := bind_eq_some_iff.mp h
    cases h
    exact ⟨_, rfl⟩
  · obtain ⟨⟨range, mid⟩, hfirst, h⟩ := bind_eq_some_iff.mp h
    obtain ⟨rangeAllocator, rfl⟩ := allocateRange_eq_some hfirst
    simp only at h
    split at h
    · obtain ⟨rangeAllocator, rfl⟩ := allocateRange_eq_some h
      exact ⟨_, rfl⟩
    · cases h
      exact ⟨_, rfl⟩

theorem validate_of_mmapError {roundedSize : ℕ} (h : mmapError params roundedSize = none) :
    validateMmapProt params.prot (hasFlag params.flags mapStack)
      (hasFlag params.flags mapAnonymous) none = true := by
  unfold mmapError at h
  split_ifs at h with _ hname _ _ _ _ _ hvalid
  · simp [h] at hname
  · simpa using hvalid

/-- `sys$mmap` leaves the regions that are there alone, and the region that it adds is in order. -/
theorem sysMmap_evolves (h : self.Sound) (hmmap : sysMmap self params env = some (result, self')) :
    Evolves SameAccess self self' := by
  rcases sysMmap_cases hmmap with ⟨-, rfl⟩ | ⟨roundedSize, -, -, herror, hmmap⟩
  · exact h.evolves_refl
  have hprot := accessOk_protToRegionAccessFlags (validateMmapProt_exclusive (validate_of_mmapError herror))
  obtain ⟨⟨range, mid⟩, hrange, hmmap⟩ := bind_eq_some_iff.mp hmmap
  obtain ⟨rangeAllocator, rfl⟩ := mmapRange_eq_some hrange
  cases range with
  | none =>
    cases hmmap
    exact h.evolves_refl
  | some range =>
    obtain ⟨⟨result, last⟩, hregion, hmmap⟩ := bind_eq_some_iff.mp hmmap
    have hcreates : Creates params.prot { self with rangeAllocator } last := by
      rw [mmapRegion] at hregion
      split at hregion
      · exact allocateRegion_creates hregion
      · exact mmapFile_creates hregion
    obtain ⟨added, hexchange, haccess⟩ := hcreates
    have hadded : ∀ r ∈ added, AccessOk r.access := fun r hr => haccess r hr ▸ hprot
    cases result with
    | error errno =>
      cases hmmap
      exact h.evolves (f := id) hexchange hadded (by simp) (by simp) (by simp) rfl
    | ok region =>
      cases hmmap
      refine h.evolves hexchange hadded (by simp) (fun r => ?_) rfl rfl
      split <;> exact ⟨rfl, rfl, rfl⟩

/-- The region is the one that `sys$mremap` replaces. -/
def Remaps (self : Space) (params : MremapParams) (region : Region) : Prop :=
  ∃ range self', expandRangeToPageBoundaries params.oldAddress.toNat params.oldSize.toNat =
      some (.ok range) ∧ self.findRegionFromRange range = some (some region, self') ∧
    isRemappable region params.flags = true

/-- The change that `sys$mremap` makes to a region: none, or it is replaced by one that is made from its
protection. -/
def RemapChange (self : Space) (params : MremapParams) (r r' : Region) : Prop :=
  r'.access = r.access ∨ (self.Remaps params r ∧ r'.access = remappedAccess r.access)

/-- The old region is taken away, and at most one region is created in its place. -/
theorem mremapRegion_evolves {inodeSize : ℕ} (h : self.Sound) (hmem : old ∈ self.regions)
    (hsame : ∀ {r r' : Region}, r'.access = r.access → change r r')
    (hremapped : ∀ {r' : Region}, r'.access = remappedAccess old.access → change old r')
    (hmremap : mremapRegion self old inodeSize pagesMapped = some (result, self')) :
    Evolves change self self' := by
  rcases htake : self.takeRegion old with ⟨taken, mid⟩
  simp only [mremapRegion, htake] at hmremap
  rw [verify_bind_eq_some] at hmremap
  obtain ⟨hsome, hmremap⟩ := hmremap
  obtain ⟨taken, rfl⟩ := isSome_iff_exists.mp hsome
  obtain ⟨rfl, htaken, -⟩ := takeRegion_eq_some (h.1.eq_of_id hmem) htake
  obtain ⟨⟨result, last⟩, hregion, hmremap⟩ := bind_eq_some_iff.mp hmremap
  obtain ⟨added, hadded, haccess⟩ := allocateRegionWithVMObject_creates hregion
  have hevolves : ∀ {f : Region → Region},
      (∀ r, (f r).id = r.id ∧ (f r).range = r.range ∧ (f r).access = r.access) →
      self'.regions = last.regions.map f → self'.nextId = last.nextId → Evolves change self self' := by
    intro f hf hregions hnext
    refine evolves_of_exchange h (htaken.trans hadded (.inr rfl)) (fun r => ⟨(hf r).1, (hf r).2.1⟩)
      hregions hnext (fun r hr => ?_) (fun r hr => ?_) fun r hr x hx _ => ?_
    · rw [(hf r).2.2, haccess r hr]
      exact accessOk_remappedAccess (h.2 taken hmem)
    · rw [(hf r).2.2]
      exact ⟨h.2 r hr, hsame (hf r).2.2⟩
    · rw [append_nil] at hr
      rw [mem_singleton.mp hr]
      exact hremapped ((hf x).2.2.trans (haccess x hx))
  cases result with
  | error errno =>
    cases hmremap
    exact hevolves (f := id) (by simp) (by simp) rfl
  | ok region =>
    cases hmremap
    refine hevolves (fun r => ?_) rfl rfl
    split <;> exact ⟨rfl, rfl, rfl⟩

theorem sysMremap_evolves {params : MremapParams} {inodeSize : ℕ} (h : self.Sound)
    (hmremap : sysMremap self promises params inodeSize pagesMapped = some (result, self')) :
    Evolves (self.RemapChange params) self self' := by
  have hsame : ∀ {r r'}, SameAccess r r' → self.RemapChange params r r' := fun hr => .inl hr
  simp only [sysMremap, bind_eq_bind, bind_eq_some_iff] at hmremap
  obtain ⟨-, -, expanded, hexpanded, hmremap⟩ := hmremap
  cases expanded with
  | error errno =>
    cases hmremap
    exact h.evolves_refl.mono hsame
  | ok range =>
    obtain ⟨⟨found, mid⟩, hfind, hmremap⟩ := bind_eq_some_iff.mp hmremap
    obtain ⟨hmid, hfound, hback⟩ := findRegionFromRange_sound h hfind
    refine hback ?_
    cases found with
    | none =>
      cases hmremap
      exact hmid.evolves_refl.mono hsame
    | some oldRegion =>
      simp only at hmremap
      split at hmremap
      · cases hmremap
        exact hmid.evolves_refl.mono hsame
      · split at hmremap
        next =>
          cases hmremap
          exact hmid.evolves_refl.mono hsame
        next hremappable =>
          have hremaps : self.Remaps params oldRegion :=
            ⟨range, _, hexpanded, hfind, by simpa using hremappable⟩
          exact mremapRegion_evolves hmid (hfound oldRegion rfl) (fun hr => .inl hr)
            (fun hr => .inr ⟨hremaps, hr⟩) hmremap

end Space

end Kernel
