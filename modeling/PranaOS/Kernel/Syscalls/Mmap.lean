import PranaOS.Kernel.KResult
import PranaOS.Kernel.VM.Space

/-!
# `Kernel/Syscalls/mmap.cpp`

The system calls `sys$mmap`, `sys$mprotect`, `sys$munmap` and `sys$mremap` on the address space of a
process. A
call returns `none` if it does not return to the caller: a `VERIFY` fails, or the process is killed
for a promise that it has not made. Otherwise it returns an error or a value, and the address space
after the call.

What a call finds outside the address space is part of its arguments: the random numbers drawn,
whether memory could be committed and mapped, and the file behind a descriptor. Names of regions,
performance events and copy-on-write flags are left out.
-/

namespace Kernel

open AK Option

/-- The result of a call that returns: an error or a value, and the address space after it. -/
abbrev SyscallResult := Except Errno ℕ × Space

/-- The promises that the calls require. -/
inductive Pledge where
  | stdio
  | protExec
  | mapFixed
  | proc
deriving DecidableEq, Repr

/-- `REQUIRE_PROMISE`. A process without promises may do anything. -/
def requirePromise (promises : Option (List Pledge)) (promise : Pledge) : Option Unit :=
  match promises with
  | none => some ()
  | some promised => verify (promise ∈ promised)

/-- `if (condition) { REQUIRE_PROMISE(promise); }`. -/
def requirePromiseIf (condition : Bool) (promises : Option (List Pledge)) (promise : Pledge) :
    Option Unit :=
  if condition then requirePromise promises promise else some ()

/-- `MAP_SHARED`. -/
def mapShared : BitVec 32 := 0x01
/-- `MAP_PRIVATE`. -/
def mapPrivate : BitVec 32 := 0x02
/-- `MAP_FIXED`. -/
def mapFixed : BitVec 32 := 0x10
/-- `MAP_ANONYMOUS`. -/
def mapAnonymous : BitVec 32 := 0x20
/-- `MAP_STACK`. -/
def mapStack : BitVec 32 := 0x40
/-- `MAP_NORESERVE`. -/
def mapNoreserve : BitVec 32 := 0x80
/-- `MAP_RANDOMIZED`. -/
def mapRandomized : BitVec 32 := 0x100

/-- `is_user_address`. -/
def isUserAddress (vaddr : ℕ) : Bool := decide (vaddr < 0xc0000000)

/-- `is_user_range`. -/
def isUserRange (vaddr size : ℕ) : Bool :=
  if (vaddr + size) % 2 ^ 32 < vaddr then false
  else isUserAddress vaddr && isUserAddress ((vaddr + size) % 2 ^ 32)

/-- `should_make_executable_exception_for_dynamic_loader`. `elfSharedObject` says whether the file
behind the region starts with a valid ELF header of type `ET_DYN` at this moment. -/
def shouldMakeExecutableExceptionForDynamicLoader
    (makeReadable makeWritable makeExecutable : Bool) (region : Region) (elfSharedObject : Bool) :
    Bool :=
  region.isReadable && region.isWritable && !region.isExecutable &&
    (makeReadable && !makeWritable && makeExecutable) &&
    region.vmobject.isInode && region.vmobject.isPrivateInode && elfSharedObject

/-- `validate_mmap_prot`, for a region and what its file is at this moment. -/
def validateMmapProt (prot : BitVec 32) (mapStack mapAnonymous : Bool)
    (region : Option (Region × Bool)) : Bool :=
  let makeReadable := hasFlag prot protRead
  let makeWritable := hasFlag prot protWrite
  let makeExecutable := hasFlag prot protExec
  if mapAnonymous && makeExecutable then false
  else if makeWritable && makeExecutable then false
  else if mapStack && makeExecutable then false
  else if mapStack && (!makeReadable || !makeWritable) then false
  else
    match region with
    | none => true
    | some (region, elfSharedObject) =>
      if makeWritable && region.hasBeenExecutable then false
      else if makeExecutable && region.hasBeenWritable then
        shouldMakeExecutableExceptionForDynamicLoader makeReadable makeWritable makeExecutable region
          elfSharedObject
      else true

/-- The state of an inode that the calls read: the rights of the process, whether its shared VM
object, if there is one, has writable or executable mappings, and whether the file is an ELF shared
object. -/
structure InodeState where
  mayRead : Bool
  mayWrite : Bool
  sharedWritableMappings : Bool
  sharedExecutableMappings : Bool
  elfSharedObject : Bool
deriving DecidableEq, Repr

/-- `validate_inode_mmap_prot`. -/
def validateInodeMmapProt (prot : BitVec 32) (inode : InodeState) (mapShared : Bool) : Bool :=
  if hasFlag prot protRead && !inode.mayRead then false
  else if mapShared then
    if hasFlag prot protWrite && !inode.mayWrite then false
    else if hasFlag prot protExec && inode.sharedWritableMappings then false
    else if hasFlag prot protWrite && inode.sharedExecutableMappings then false
    else true
  else true

/-! ## `sys$mmap` -/

/-- `SC_mmap_params`. The descriptor is represented by the file behind it, and the name by the
error, if any, of copying it from user memory. -/
structure MmapParams where
  addr : UInt32
  size : UInt32
  alignment : UInt32
  prot : BitVec 32
  flags : BitVec 32
  offset : ℤ
  nameError : Option Errno

/-- What `File::mmap` does: an inode file creates a private or shared object over the inode, an
anonymous file maps its own object, a device checks the arguments itself and maps physical memory,
and other files cannot be mapped. -/
inductive File where
  | inodeFile (size : ℕ) (vmobjectCreated : Bool)
  | anonymousFile (vmobject : VMObject)
  | device (physicalRange : Except Errno VMObject)
  | other

/-- `FileDescription`. -/
structure FileDescription where
  isDirectory : Bool
  isReadable : Bool
  isWritable : Bool
  inode : Option InodeState
  file : File

/-- What a call of `sys$mmap` finds outside the address space. -/
structure MmapEnv where
  promises : Option (List Pledge)
  random : ℕ → UInt32
  /-- `AnonymousVMObject::create_with_size` could commit the pages. -/
  vmobjectCreated : Bool
  /-- `Region::map` could fill the page tables. -/
  pagesMapped : Bool
  description : Option FileDescription

/-- The checks of `sys$mmap` on its arguments, in order. -/
def mmapError (params : MmapParams) (roundedSize : ℕ) : Option Errno :=
  if ¬isUserRange params.addr.toNat roundedSize then some .EFAULT
  else if params.nameError.isSome then params.nameError
  else if params.size = 0 then some .EINVAL
  else if params.addr.toNat % pageSize ≠ 0 then some .EINVAL
  else if hasFlag params.flags mapShared && hasFlag params.flags mapPrivate then some .EINVAL
  else if !hasFlag params.flags mapShared && !hasFlag params.flags mapPrivate then some .EINVAL
  else if hasFlag params.flags mapFixed && hasFlag params.flags mapRandomized then some .EINVAL
  else if !validateMmapProt params.prot (hasFlag params.flags mapStack)
      (hasFlag params.flags mapAnonymous) none then some .EINVAL
  else if hasFlag params.flags mapStack &&
      (!hasFlag params.flags mapPrivate || !hasFlag params.flags mapAnonymous) then some .EINVAL
  else none

variable (self : Space)

/-- The allocation of the range in `sys$mmap`. -/
def mmapRange (params : MmapParams) (random : ℕ → UInt32) (roundedSize : ℕ) :
    Option (Option Range × Space) :=
  if hasFlag params.flags mapRandomized then do
    return self.withAllocator
      (← self.rangeAllocator.allocateRandomized roundedSize params.alignment.toNat random)
  else do
    let (range, self) ← self.allocateRange params.addr.toNat params.size.toNat params.alignment.toNat
    -- without `MAP_FIXED` the address is only a hint
    if range.isNone ∧ params.addr ≠ 0 ∧ ¬hasFlag params.flags mapFixed then
      self.allocateRange 0 params.size.toNat params.alignment.toNat
    else return (range, self)

namespace Space

/-- `allocate_region`. If the pages cannot be mapped, the region is destroyed again. -/
def allocateRegion (self : Space) (range : Range) (prot : BitVec 32) (env : MmapEnv) :
    Option (Except Errno Region × Space) := do
  verify (range.base ≠ 0)
  if ¬env.vmobjectCreated then return (.error .ENOMEM, self)
  let region ← Region.createUserAccessible self.nextId range ⟨.anonymous, range.size⟩ 0
    (protToRegionAccessFlags prot) true false
  let region := { region with mapped := true }
  if ¬env.pagesMapped then
    return (.error .ENOMEM, ← self.destroyRegion region)
  return (.ok region, self.addRegion region)

/-- `allocate_region_with_vmobject`. If the pages cannot be mapped, the region stays. -/
def allocateRegionWithVMObject (self : Space) (range : Range) (vmobject : VMObject)
    (offsetInVMObject : ℕ) (prot : BitVec 32) (shared pagesMapped : Bool) :
    Option (Except Errno Region × Space) := do
  verify (range.base ≠ 0)
  let endInVMObject := (offsetInVMObject + range.size) % 2 ^ 32
  if endInVMObject ≤ offsetInVMObject then return (.error .EINVAL, self)
  if offsetInVMObject ≥ vmobject.size then return (.error .EINVAL, self)
  if endInVMObject > vmobject.size then return (.error .EINVAL, self)
  let region ← Region.createUserAccessible self.nextId range vmobject (pageBase offsetInVMObject)
    (protToRegionAccessFlags prot) true shared
  let region := { region with mapped := true }
  let self := self.addRegion region
  if ¬pagesMapped then return (.error .ENOMEM, self)
  return (.ok region, self)

end Space

/-- The region of `sys$mmap` for a file: the checks on the description, then `File::mmap`. -/
def mmapFile (params : MmapParams) (env : MmapEnv) (range : Range) :
    Option (Except Errno Region × Space) :=
  let shared := hasFlag params.flags mapShared
  if params.offset < 0 then some (.error .EINVAL, self)
  else if params.offset.toNat % 2 ^ 32 % pageSize ≠ 0 then some (.error .EINVAL, self)
  else
    match env.description with
    | none => some (.error .EBADF, self)
    | some description =>
      if description.isDirectory then some (.error .ENODEV, self)
      else if ¬description.isReadable then some (.error .EACCES, self)
      else if shared && hasFlag params.prot protWrite && !description.isWritable then
        some (.error .EACCES, self)
      else if description.inode.any fun inode =>
          !validateInodeMmapProt params.prot inode shared then some (.error .EACCES, self)
      else
        match description.file with
        | .inodeFile size vmobjectCreated =>
          if ¬vmobjectCreated then some (.error .ENOMEM, self)
          else self.allocateRegionWithVMObject range
            ⟨if shared then .sharedInode else .privateInode, size⟩
            (params.offset.toNat % 2 ^ 32) params.prot shared env.pagesMapped
        | .anonymousFile vmobject =>
          if params.offset ≠ 0 then some (.error .EINVAL, self)
          else if range.size ≠ vmobject.size then some (.error .EINVAL, self)
          else self.allocateRegionWithVMObject range vmobject (params.offset.toNat % 2 ^ 32)
            params.prot shared env.pagesMapped
        | .device (.error errno) => some (.error errno, self)
        | .device (.ok vmobject) =>
          self.allocateRegionWithVMObject range vmobject 0 params.prot shared env.pagesMapped
        | .other => some (.error .ENODEV, self)

/-- The region of `sys$mmap`, anonymous or for a file. -/
def mmapRegion (params : MmapParams) (env : MmapEnv) (range : Range) :
    Option (Except Errno Region × Space) :=
  if hasFlag params.flags mapAnonymous then self.allocateRegion range params.prot env
  else mmapFile self params env range

/-- The flags that `sys$mmap` sets on its region at the end. -/
def setMmapFlags (params : MmapParams) (region : Region) : Region :=
  { region with
    mmap := true
    shared := region.shared || hasFlag params.flags mapShared
    stack := region.stack || hasFlag params.flags mapStack }

/-- `sys$mmap` after the checks on its arguments. -/
def mmapChecked (params : MmapParams) (env : MmapEnv) (roundedSize : ℕ) :
    Option SyscallResult := do
  match ← mmapRange self params env.random roundedSize with
  | (none, self) => return (.error .ENOMEM, self)
  | (some range, self) =>
    match ← mmapRegion self params env range with
    | (.error errno, self) => return (.error errno, self)
    | (.ok region, self) =>
      return (.ok region.range.base, self.updateRegion region.id (setMmapFlags params))

/-- `sys$mmap`. `REQUIRE_PROMISE(map_fixed)` is guarded by a test of the protection, not of the
flags. -/
def sysMmap (params : MmapParams) (env : MmapEnv) : Option SyscallResult := do
  requirePromise env.promises .stdio
  requirePromiseIf (hasFlag params.prot protExec) env.promises .protExec
  requirePromiseIf (hasFlag params.prot mapFixed) env.promises .mapFixed
  if params.alignment.toNat % pageSize ≠ 0 then return (.error .EINVAL, self)
  if pageRoundUpWouldWrap params.size.toNat then return (.error .EINVAL, self)
  let roundedSize ← pageRoundUp params.size.toNat
  match mmapError params roundedSize with
  | some errno => return (.error errno, self)
  | none => mmapChecked self params env roundedSize

/-! ## `sys$mprotect` and `sys$munmap` -/

/-- `expand_range_to_page_boundaries`. -/
def expandRangeToPageBoundaries (address size : ℕ) : Option (Except Errno Range) := do
  if pageRoundUpWouldWrap size then return .error .EINVAL
  if (address + size) % 2 ^ 32 < address then return .error .EINVAL
  if pageRoundUpWouldWrap ((address + size) % 2 ^ 32) then return .error .EINVAL
  let base := pageBase address
  let endAddr ← pageRoundUp ((address + size) % 2 ^ 32)
  return .ok ⟨base, endAddr - base⟩

/-- The checks that `sys$mprotect` makes on the region it is about to change. `none` means that
the change goes ahead; the flags may already be as requested. -/
def mprotectCheck (region : Region) (prot : BitVec 32) (inode : InodeState) :
    Option (Except Errno ℕ) :=
  if ¬region.mmap then some (.error .EPERM)
  else if ¬validateMmapProt prot region.stack region.vmobject.isAnonymous
      (some (region, inode.elfSharedObject)) then
    some (.error .EINVAL)
  else if region.access = protToRegionAccessFlags prot then some (.ok 0)
  else if region.vmobject.isInode && !validateInodeMmapProt prot inode region.shared then
    some (.error .EACCES)
  else none

/-- The part of `sys$mprotect` that carves the range out of a larger region. -/
def mprotectCarve (oldRegion : Region) (range : Range) (prot : BitVec 32) :
    Option Space := do
  let (taken, self) := self.takeRegion oldRegion
  let region ← taken
  let region := { region with mapped := false }
  let (adjacent, self) ← self.splitRegionAroundRange region range
  let offset := (region.offsetInVMObject + (range.base - region.range.base)) % 2 ^ 32
  let (newRegion, self) ← self.allocateSplitRegion region range offset
  let self := self.updateRegion newRegion.id fun region => region.setProt prot
  return self.mapRegions (newRegion.id :: adjacent)

/-- `sys$mprotect`. -/
def sysMprotect (promises : Option (List Pledge)) (addr size : UInt32)
    (prot : BitVec 32) (inode : InodeState) : Option SyscallResult := do
  requirePromise promises .stdio
  requirePromiseIf (hasFlag prot protExec) promises .protExec
  match ← expandRangeToPageBoundaries addr.toNat size.toNat with
  | .error errno => return (.error errno, self)
  | .ok range =>
    if range.size = 0 then return (.error .EINVAL, self)
    if ¬isUserRange range.base range.size then return (.error .EFAULT, self)
    let (whole, self) ← self.findRegionFromRange range
    match whole with
    | some wholeRegion =>
      match mprotectCheck wholeRegion prot inode with
      | some result => return (result, self)
      | none =>
        verify (wholeRegion.mapped = true)
        return (.ok 0, self.updateRegion wholeRegion.id fun region => region.setProt prot)
    | none =>
      match self.findRegionContaining range with
      | some oldRegion =>
        match mprotectCheck oldRegion prot inode with
        | some result => return (result, self)
        | none => return (.ok 0, ← mprotectCarve self oldRegion range prot)
      | none => return (.error .EINVAL, self)

/-- Give a range back to the allocator of the address space. -/
def Space.deallocateRange (range : Range) : Option Space := do
  let rangeAllocator ← self.rangeAllocator.deallocate range
  return { self with rangeAllocator }

/-- The part of `sys$munmap` that carves the range out of a larger region. -/
def munmapCarve (oldRegion : Region) (range : Range) : Option Space := do
  let (taken, self) := self.takeRegion oldRegion
  let region ← taken
  let region := { region with mapped := false }
  let (newRegions, self) ← self.splitRegionAroundRange region range
  let self ← self.deallocateRange range
  return self.mapRegions newRegions

/-- `Vector::try_append(Vector&&)`, which returns `true` if it succeeds. -/
def vectorTryAppend (canGrow : Bool) (vector other : List ℕ) : Bool × List ℕ :=
  if vector = [] then (true, other)
  else if canGrow then (true, vector ++ other)
  else (false, vector)

/-- The loop of `sys$munmap` over several regions. It returns the new regions, or the error for
which the call gives up. The loop gives up if `try_append` returns `true`. -/
def munmapLoop (canGrow : Bool) (range : Range) :
    List Region → List ℕ → Space → Option (Except Errno (List ℕ) × Space)
  | [], newRegions, self => some (.ok newRegions, self)
  | oldRegion :: rest, newRegions, self => do
    let common ← oldRegion.range.intersect range
    if common.size = oldRegion.range.size then
      let (res, self) ← self.deallocateRegion oldRegion
      verify (res = true)
      munmapLoop canGrow range rest newRegions self
    else
      let (taken, self) := self.takeRegion oldRegion
      let region ← taken
      let (split, self) ← self.splitRegionAroundRange { region with mapped := false } range
      let (appended, newRegions) := vectorTryAppend canGrow newRegions split
      if appended then return (.error .ENOMEM, self)
      munmapLoop canGrow range rest newRegions self

/-- `sys$munmap`. -/
def sysMunmap (promises : Option (List Pledge)) (canGrow : Bool)
    (addr size : UInt32) : Option SyscallResult := do
  requirePromise promises .stdio
  if size = 0 then return (.error .EINVAL, self)
  match ← expandRangeToPageBoundaries addr.toNat size.toNat with
  | .error errno => return (.error errno, self)
  | .ok range =>
    if ¬isUserRange range.base range.size then return (.error .EFAULT, self)
    let (whole, self) ← self.findRegionFromRange range
    match whole with
    | some wholeRegion =>
      if ¬wholeRegion.mmap then return (.error .EPERM, self)
      let (success, self) ← self.deallocateRegion wholeRegion
      verify (success = true)
      return (.ok 0, self)
    | none =>
      match self.findRegionContaining range with
      | some oldRegion =>
        if ¬oldRegion.mmap then return (.error .EPERM, self)
        return (.ok 0, ← munmapCarve self oldRegion range)
      | none =>
        let regions ← self.findRegionsIntersecting range
        if regions.any fun region => !region.mmap then return (.error .EPERM, self)
        match ← munmapLoop canGrow range regions [] self with
        | (.error errno, self) => return (.error errno, self)
        | (.ok newRegions, self) =>
          let self ← self.deallocateRange range
          return (.ok 0, self.mapRegions newRegions)

/-! ## `sys$mremap` -/

/-- `SC_mremap_params`, as far as the call reads them. -/
structure MremapParams where
  oldAddress : UInt32
  oldSize : UInt32
  flags : BitVec 32

/-- The mappings that `sys$mremap` can turn into private ones. -/
def isRemappable (region : Region) (flags : BitVec 32) : Bool :=
  region.vmobject.isSharedInode && hasFlag flags mapPrivate &&
    !hasFlag flags (mapAnonymous ||| mapNoreserve)

/-- The part of `sys$mremap` that replaces a region by a private mapping of the same inode, which has
`inodeSize` bytes of pages by now. The new region is made from the protection of the old one. -/
def mremapRegion (oldRegion : Region) (inodeSize : ℕ) (pagesMapped : Bool) :
    Option SyscallResult := do
  let oldProt := regionAccessFlagsToProt oldRegion.access
  -- the region has been unmapped, so that its destructor does not give the range back
  let (taken, self) := self.takeRegion oldRegion
  verify taken.isSome
  match ← self.allocateRegionWithVMObject oldRegion.range ⟨.privateInode, inodeSize⟩
      oldRegion.offsetInVMObject oldProt false pagesMapped with
  | (.error errno, self) => return (.error errno, self)
  | (.ok region, self) =>
    return (.ok region.range.base, self.updateRegion region.id fun region =>
      { region with mmap := true })

/-- `sys$mremap`. -/
def sysMremap (promises : Option (List Pledge)) (params : MremapParams)
    (inodeSize : ℕ) (pagesMapped : Bool) : Option SyscallResult := do
  requirePromise promises .stdio
  match ← expandRangeToPageBoundaries params.oldAddress.toNat params.oldSize.toNat with
  | .error errno => return (.error errno, self)
  | .ok oldRange =>
    match ← self.findRegionFromRange oldRange with
    | (none, self) => return (.error .EINVAL, self)
    | (some oldRegion, self) =>
      if ¬oldRegion.mmap then return (.error .EPERM, self)
      if ¬isRemappable oldRegion params.flags then return (.error .ENOTIMPL, self)
      mremapRegion self oldRegion inodeSize pagesMapped

/-! ## What the calls do -/

section

variable {self self' : Space} {promises : Option (List Pledge)} {addr size : UInt32}
  {result : Except Errno ℕ} {region : Region} {range : Range} {prot : BitVec 32}

open Space

section Carve

variable (hunique : ∀ r ∈ self.regions, r.id = region.id → r = region)

include hunique

/-- Cutting a range out of a region takes it away and adds the parts on both sides of the range. -/
theorem takeSplit_eq_some {taken : Option Region} {mid : Space} (htake : self.takeRegion region = (taken, mid))
    {source : Region} (htaken : taken = some source) {ids : List ℕ}
    (hsplit : mid.splitRegionAroundRange { source with mapped := false } range = some (ids, self')) :
    source = region ∧ ∃ added : List Region, region.range.carve range = some (added.map Region.range) ∧
      added.map Region.id = ids ∧ (∀ r ∈ added, r.access = Region.initialAccess region.access) ∧
      Exchanges self [region] added self' ∧ self'.rangeAllocator = self.rangeAllocator := by
  subst htaken
  obtain ⟨rfl, hexchange, halloc⟩ := takeRegion_eq_some hunique htake
  obtain ⟨added, hcarve, hids, haccess, hexchange', halloc'⟩ := splitRegionAroundRange_eq_some hsplit
  exact ⟨rfl, added, hcarve, hids, haccess, hexchange.trans hexchange' (.inr rfl), halloc'.trans halloc⟩

/-- What the carving path of `sys$munmap` does. -/
theorem munmapCarve_eq_some (h : munmapCarve self region range = some self') :
    ∃ (added : List Region) (mid : Space) (rangeAllocator : RangeAllocator),
      region.range.carve range = some (added.map Region.range) ∧
      (∀ r ∈ added, r.access = Region.initialAccess region.access) ∧
      Exchanges self [region] added mid ∧ self.rangeAllocator.deallocate range = some rangeAllocator ∧
      self' = { mid with rangeAllocator }.mapRegions (added.map Region.id) := by
  rcases htake : self.takeRegion region with ⟨taken, mid⟩
  simp only [munmapCarve, deallocateRange, htake, bind_eq_bind, bind_eq_some_iff,
    pure_def, some.injEq, Prod.exists] at h
  obtain ⟨taken, htaken, ids, split, hsplit, given, ⟨rangeAllocator, hgive, rfl⟩, rfl⟩ := h
  obtain ⟨-, added, hcarve, rfl, haccess, hexchange, halloc⟩ := takeSplit_eq_some hunique htake htaken hsplit
  exact ⟨added, split, rangeAllocator, hcarve, haccess, hexchange, halloc ▸ hgive, rfl⟩

/-- What the carving path of `sys$mprotect` does. -/
theorem mprotectCarve_eq_some (h : mprotectCarve self region range prot = some self') :
    ∃ (parts : List Region) (new : Region) (mid : Space),
      region.range.carve range = some (parts.map Region.range) ∧ new.range = range ∧ 0 < range.size ∧
      (∀ r ∈ parts ++ [new], r.access = Region.initialAccess region.access) ∧
      Exchanges self [region] (parts ++ [new]) mid ∧ mid.rangeAllocator = self.rangeAllocator ∧
      self' = (mid.updateRegion new.id fun r => r.setProt prot).mapRegions
        (new.id :: parts.map Region.id) := by
  rcases htake : self.takeRegion region with ⟨taken, mid⟩
  simp only [mprotectCarve, htake, bind_eq_bind, bind_eq_some_iff, Prod.exists] at h
  obtain ⟨taken, htaken, ids, split, hsplit, new, last, hnew, ⟨⟩⟩ := h
  obtain ⟨rfl, parts, hcarve, rfl, haccess, hexchange, halloc⟩ :=
    takeSplit_eq_some hunique htake htaken hsplit
  obtain ⟨hrange, hpos, hnewAccess, hexchange', halloc'⟩ := allocateSplitRegion_eq_some hnew
  refine ⟨parts, new, last, hcarve, hrange, hpos, ?_, hexchange.trans hexchange' (.inr rfl),
    halloc'.trans halloc, rfl⟩
  exact List.forall_mem_append.mpr ⟨haccess, by simpa using hnewAccess⟩

end Carve

theorem fails_of_eq {errno : Errno} {mid : Space} (h : some (.error errno, mid) = some (result, self')) :
    (∀ value, result ≠ .ok value) ∧ self' = mid := by
  cases h
  exact ⟨by simp, rfl⟩

/-- `sys$mmap` fails without a change, or it goes on with a size of whole pages. -/
theorem sysMmap_cases {params : MmapParams} {env : MmapEnv}
    (h : sysMmap self params env = some (result, self')) :
    ((∀ value, result ≠ .ok value) ∧ self' = self) ∨
      ∃ roundedSize, params.size.toNat ≤ 0xfffff000 ∧
        pageRoundUp params.size.toNat = some roundedSize ∧ mmapError params roundedSize = none ∧
        mmapChecked self params env roundedSize = some (result, self') := by
  simp only [sysMmap, bind_eq_bind, bind_eq_some_iff, ite_eq_iff] at h
  obtain ⟨-, -, -, -, -, -, ⟨-, h⟩ | ⟨-, ⟨-, h⟩ | ⟨hwrap, roundedSize, hrounded, h⟩⟩⟩ := h
  · exact .inl (fails_of_eq h)
  · exact .inl (fails_of_eq h)
  · split at h
    next => exact .inl (fails_of_eq h)
    next herror =>
      exact .inr ⟨roundedSize, by simpa [pageRoundUpWouldWrap] using hwrap, hrounded, herror, h⟩

/-- `sys$mprotect` fails without a change, or it looks for the region of its range and, unless that
changes nothing, sets the protection of this region, or carves the range out of a larger one. -/
theorem sysMprotect_cases {inode : InodeState}
    (h : sysMprotect self promises addr size prot inode = some (result, self')) :
    ((∀ value, result ≠ .ok value) ∧ self' = self) ∨
      ∃ range whole mid, expandRangeToPageBoundaries addr.toNat size.toNat = some (.ok range) ∧
        range.size ≠ 0 ∧ self.findRegionFromRange range = some (whole, mid) ∧
        (self' = mid ∨
          (∃ region, whole = some region ∧ mprotectCheck region prot inode = none ∧
            self' = mid.updateRegion region.id fun r => r.setProt prot) ∨
          ∃ region, mid.findRegionContaining range = some region ∧
            mprotectCheck region prot inode = none ∧
            mprotectCarve mid region range prot = some self') := by
  simp only [sysMprotect, bind_eq_bind, bind_eq_some_iff] at h
  obtain ⟨-, -, -, -, expanded, hexpanded, h⟩ := h
  cases expanded with
  | error errno => exact .inl (fails_of_eq h)
  | ok range =>
    simp only [ite_eq_iff, bind_eq_some_iff, Prod.exists] at h
    obtain ⟨-, h⟩ | ⟨hsize, ⟨-, h⟩ | ⟨-, whole, mid, hfind, h⟩⟩ := h
    · exact .inl (fails_of_eq h)
    · exact .inl (fails_of_eq h)
    refine .inr ⟨range, whole, mid, hexpanded, hsize, hfind, ?_⟩
    split at h
    next region =>
      split at h
      next =>
        cases h
        exact .inl rfl
      next hcheck =>
        obtain ⟨-, ⟨⟩⟩ := verify_bind_eq_some.mp h
        exact .inr (.inl ⟨region, rfl, hcheck, rfl⟩)
    next =>
      split at h
      next region hold =>
        split at h
        next =>
          cases h
          exact .inl rfl
        next hcheck =>
          obtain ⟨last, hcarve, ⟨⟩⟩ := bind_eq_some_iff.mp h
          exact .inr (.inr ⟨region, hold, hcheck, hcarve⟩)
      next =>
        cases h
        exact .inl rfl

/-- `sys$munmap` fails without a change, or it looks for the region of its range. If it does not fail
then, it removes this region, or carves the range out of a larger one, or goes through all regions that
it finds. -/
theorem sysMunmap_cases {canGrow : Bool}
    (h : sysMunmap self promises canGrow addr size = some (result, self')) :
    ((∀ value, result ≠ .ok value) ∧ self' = self) ∨
      ∃ range whole mid, size ≠ 0 ∧
        expandRangeToPageBoundaries addr.toNat size.toNat = some (.ok range) ∧
        self.findRegionFromRange range = some (whole, mid) ∧
        (((∀ value, result ≠ .ok value) ∧ self' = mid) ∨
          (∃ region, whole = some region ∧ mid.deallocateRegion region = some (true, self')) ∨
          (∃ region, mid.findRegionContaining range = some region ∧
            munmapCarve mid region range = some self') ∨
          ∃ regions outcome last, mid.findRegionContaining range = none ∧
            mid.findRegionsIntersecting range = some regions ∧
            munmapLoop canGrow range regions [] mid = some (outcome, last) ∧
            (self' = last ∨
              ∃ ids given, last.deallocateRange range = some given ∧ self' = given.mapRegions ids)) := by
  simp only [sysMunmap, bind_eq_bind, bind_eq_some_iff, ite_eq_iff] at h
  obtain ⟨-, -, ⟨-, h⟩ | ⟨hsize, expanded, hexpanded, h⟩⟩ := h
  · exact .inl (fails_of_eq h)
  cases expanded with
  | error errno => exact .inl (fails_of_eq h)
  | ok range =>
    simp only [ite_eq_iff, bind_eq_some_iff, Prod.exists] at h
    obtain ⟨-, h⟩ | ⟨-, whole, mid, hfind, h⟩ := h
    · exact .inl (fails_of_eq h)
    refine .inr ⟨range, whole, mid, hsize, hexpanded, hfind, ?_⟩
    split at h
    next region =>
      obtain ⟨-, h⟩ | ⟨-, h⟩ := ite_eq_iff.mp h
      · exact .inl (fails_of_eq h)
      obtain ⟨⟨success, last⟩, hdeallocate, h⟩ := bind_eq_some_iff.mp h
      obtain ⟨rfl, ⟨⟩⟩ := verify_bind_eq_some.mp h
      exact .inr (.inl ⟨region, rfl, hdeallocate⟩)
    next =>
      split at h
      next region hold =>
        simp only [ite_eq_iff, bind_eq_some_iff] at h
        obtain ⟨-, h⟩ | ⟨-, last, hcarve, ⟨⟩⟩ := h
        · exact .inl (fails_of_eq h)
        exact .inr (.inr (.inl ⟨region, hold, hcarve⟩))
      next hnone =>
        simp only [ite_eq_iff, bind_eq_some_iff, Prod.exists] at h
        obtain ⟨regions, hregions, ⟨-, h⟩ | ⟨-, outcome, last, hloop, h⟩⟩ := h
        · exact .inl (fails_of_eq h)
        refine .inr (.inr (.inr ⟨regions, outcome, last, hnone, hregions, hloop, ?_⟩))
        cases outcome with
        | error errno => exact .inl (fails_of_eq h).2
        | ok ids =>
          obtain ⟨given, hgiven, ⟨⟩⟩ := bind_eq_some_iff.mp h
          exact .inr ⟨ids, given, hgiven, rfl⟩

end

end Kernel
