import PranaOS.AK.StdLibExtras
import PranaOS.Kernel.VM.Range

/-!
# `Kernel/VM/Region`

A region maps a range of virtual addresses to the pages of a VM object. The model keeps what the
address-space code reads: the range, the offset into the object, the access flags and the kind of
mapping, and whether the region is attached to a page directory. Page table entries are left out.

`translatesPageRange_iff` says for which ranges of pages of the VM object
`translate_vmobject_page_range` finds the pages that the region maps.
-/

namespace Kernel

open AK

/-- The kinds of VM object that `is_anonymous`, `is_private_inode` and `is_shared_inode` tell
apart. -/
inductive VMObjectKind where
  | anonymous
  | privateInode
  | sharedInode
deriving DecidableEq, Repr

/-- A VM object. -/
structure VMObject where
  kind : VMObjectKind
  size : ℕ
deriving DecidableEq, Repr

namespace VMObject

variable (self : VMObject)

/-- `is_anonymous`. -/
def isAnonymous : Bool := self.kind == .anonymous

/-- `is_private_inode`. -/
def isPrivateInode : Bool := self.kind == .privateInode

/-- `is_shared_inode`. -/
def isSharedInode : Bool := self.kind == .sharedInode

/-- `is_inode`. -/
def isInode : Bool := self.kind != .anonymous

end VMObject

/-- `prot & mask`, read as a truth value. -/
def hasFlag {w : ℕ} (flags mask : BitVec w) : Bool := flags &&& mask != 0

/-! ## Protection and access flags -/

/-- `PROT_READ`. -/
def protRead : BitVec 32 := 0x1
/-- `PROT_WRITE`. -/
def protWrite : BitVec 32 := 0x2
/-- `PROT_EXEC`. -/
def protExec : BitVec 32 := 0x4

namespace Region.Access

/-- `Region::Access::Read`. -/
def read : BitVec 8 := 1
/-- `Region::Access::Write`. -/
def write : BitVec 8 := 2
/-- `Region::Access::Execute`. -/
def execute : BitVec 8 := 4
/-- `Region::Access::HasBeenReadable`. -/
def hasBeenReadable : BitVec 8 := 16
/-- `Region::Access::HasBeenWritable`. -/
def hasBeenWritable : BitVec 8 := 32
/-- `Region::Access::HasBeenExecutable`. -/
def hasBeenExecutable : BitVec 8 := 64

end Region.Access

/-- `prot_to_region_access_flags`. -/
def protToRegionAccessFlags (prot : BitVec 32) : BitVec 8 :=
  (if hasFlag prot protRead then Region.Access.read else 0) |||
    (if hasFlag prot protWrite then Region.Access.write else 0) |||
      (if hasFlag prot protExec then Region.Access.execute else 0)

/-- `region_access_flags_to_prot`. -/
def regionAccessFlagsToProt (access : BitVec 8) : BitVec 32 :=
  (if hasFlag access Region.Access.read then protRead else 0) |||
    (if hasFlag access Region.Access.write then protWrite else 0) |||
      (if hasFlag access Region.Access.execute then protExec else 0)

/-- `class Region`. `id` stands for the address of the object, and `mapped` for `m_page_directory`
being set. -/
structure Region where
  id : ℕ
  range : Range
  offsetInVMObject : ℕ
  vmobject : VMObject
  access : BitVec 8
  shared : Bool
  cacheable : Bool
  stack : Bool
  mmap : Bool
  syscallRegion : Bool
  mapped : Bool
deriving DecidableEq, Repr

namespace Region

/-- The constructor of `Region`, as called by `create_user_accessible`. -/
def createUserAccessible (id : ℕ) (range : Range) (vmobject : VMObject) (offsetInVMObject : ℕ)
    (access : BitVec 8) (cacheable shared : Bool) : Option Region := do
  verify (range.base % pageSize = 0)
  verify (range.size ≠ 0)
  verify (range.size % pageSize = 0)
  return {
    id, range, offsetInVMObject, vmobject
    access := access ||| ((access &&& 0x7) <<< 4)
    shared, cacheable
    stack := false, mmap := false, syscallRegion := false, mapped := false }

/-- What the constructor makes of the flags that it is given. -/
def initialAccess (access : BitVec 8) : BitVec 8 := access ||| ((access &&& 0x7) <<< 4)

variable (self : Region)

/-- `set_access_bit`. -/
def setAccessBit (access : BitVec 8) (b : Bool) : Region :=
  if b then { self with access := self.access ||| (access ||| (access <<< 4)) }
  else { self with access := self.access &&& ~~~access }

/-- The three calls of `set_readable`, `set_writable` and `set_executable` in `sys$mprotect`. -/
def setProt (prot : BitVec 32) : Region :=
  ((self.setAccessBit Access.read (hasFlag prot protRead)).setAccessBit Access.write
    (hasFlag prot protWrite)).setAccessBit Access.execute (hasFlag prot protExec)

/-- `is_readable`. -/
def isReadable : Bool := hasFlag self.access Access.read
/-- `is_writable`. -/
def isWritable : Bool := hasFlag self.access Access.write
/-- `is_executable`. -/
def isExecutable : Bool := hasFlag self.access Access.execute
/-- `has_been_readable`. -/
def hasBeenReadable (self : Region) : Bool := hasFlag self.access Access.hasBeenReadable
/-- `has_been_writable`. -/
def hasBeenWritable (self : Region) : Bool := hasFlag self.access Access.hasBeenWritable
/-- `has_been_executable`. -/
def hasBeenExecutable (self : Region) : Bool := hasFlag self.access Access.hasBeenExecutable

/-- `Region::clone`, or `none` in place of a region if the VM object cannot be cloned. The clone is
created for another process, in which it gets the address `id`. -/
def clone (id : ℕ) (vmobjectCloned : Bool) : Option (Option Region) := do
  if self.shared then
    verify (self.stack = false)
    verify (!self.vmobject.isInode || self.vmobject.isSharedInode)
    let region ← createUserAccessible id self.range self.vmobject self.offsetInVMObject self.access
      self.cacheable self.shared
    return some { region with mmap := self.mmap, syscallRegion := self.syscallRegion }
  else
    verify (!self.vmobject.isInode || self.vmobject.isPrivateInode)
    if ¬vmobjectCloned then return none
    -- `remap` of the region itself, which only concerns the page tables
    verify (self.mapped = true)
    let region ← createUserAccessible id self.range self.vmobject self.offsetInVMObject self.access
      self.cacheable self.shared
    verify (!self.stack || (self.isReadable && self.isWritable && self.vmobject.isAnonymous))
    return some { region with
      stack := self.stack, mmap := self.mmap, syscallRegion := self.syscallRegion }

@[simp]
theorem range_setAccessBit (access : BitVec 8) (b : Bool) :
    (self.setAccessBit access b).range = self.range := by
  cases b <;> rfl

@[simp]
theorem id_setAccessBit (access : BitVec 8) (b : Bool) :
    (self.setAccessBit access b).id = self.id := by
  cases b <;> rfl

@[simp]
theorem mapped_setAccessBit (access : BitVec 8) (b : Bool) :
    (self.setAccessBit access b).mapped = self.mapped := by
  cases b <;> rfl

@[simp]
theorem id_setProt (prot : BitVec 32) : (self.setProt prot).id = self.id := by
  simp [setProt]

@[simp]
theorem mapped_setProt (prot : BitVec 32) :
    (self.setProt prot).mapped = self.mapped := by
  simp [setProt]

@[simp]
theorem range_setProt (prot : BitVec 32) : (self.setProt prot).range = self.range := by
  simp [setProt]

/-! ## Pages of the VM object -/

/-- `first_page_index`. -/
def firstPageIndex : ℕ := self.offsetInVMObject / pageSize

/-- `page_count`. -/
def pageCount : ℕ := self.range.size / pageSize

/-- `translate_vmobject_page_range`: the result, and what `index` and `page_count` are set to. -/
def translateVmobjectPageRange (index pageCount : ℕ) : Bool × ℕ × ℕ :=
  let firstIndex := self.firstPageIndex
  let delta := firstIndex - index
  if index < firstIndex ∧ delta ≥ pageCount then (false, firstIndex, 0)
  else
    let pageCount := if index < firstIndex then pageCount - delta else pageCount
    let index := if index < firstIndex then 0 else index - firstIndex
    let totalPageCount := self.pageCount
    if (index + pageCount) % 2 ^ 32 > totalPageCount then
      let pageCount := sub32 totalPageCount index
      (decide (pageCount ≠ 0), index, pageCount)
    else (true, index, pageCount)

/-- The pages of the VM object with an index in `[index, index + count)` that the region maps. -/
def mappedPages (index count : ℕ) : Set ℕ :=
  Set.Ico index (index + count) ∩ Set.Ico self.firstPageIndex (self.firstPageIndex + self.pageCount)

/-- The translation tells whether the region maps a page of the range, and if so, returns the
indices that these pages have in the region. -/
def TranslatesPageRange (index count : ℕ) : Prop :=
  let (found, index', count') := self.translateVmobjectPageRange index count
  (found = true ↔ (self.mappedPages index count).Nonempty) ∧
    (found = true → index' + count' ≤ self.pageCount ∧
      ∀ page, page ∈ Set.Ico index' (index' + count') ↔
        page + self.firstPageIndex ∈ self.mappedPages index count)

theorem nonempty_mappedPages {self : Region} {index count : ℕ} :
    (self.mappedPages index count).Nonempty ↔
      max index self.firstPageIndex <
        min (index + count) (self.firstPageIndex + self.pageCount) := by
  rw [mappedPages, Set.Ico_inter_Ico, Set.nonempty_Ico]

/-- The translation is right for a range that starts below the region. For one that starts above
the first page, the pages have to be some, the start must not lie beyond the region, and the end
has to be a `size_t`: the count is otherwise left as it is, or the difference of the number of pages
and the start wraps around. -/
theorem translatesPageRange_iff {self : Region} {index count : ℕ}
    (hoffset : self.offsetInVMObject < 2 ^ 32) (hsize : self.range.size < 2 ^ 32)
    (hindex : index < 2 ^ 32) (hcount : count < 2 ^ 32) :
    self.TranslatesPageRange index count ↔
      index < self.firstPageIndex ∨
        0 < count ∧ index ≤ self.firstPageIndex + self.pageCount ∧
          index - self.firstPageIndex + count < 2 ^ 32 := by
  have hfirst : self.firstPageIndex < 2 ^ 32 := (Nat.div_le_self _ _).trans_lt hoffset
  have htotal : self.pageCount < 2 ^ 32 := (Nat.div_le_self _ _).trans_lt hsize
  unfold TranslatesPageRange translateVmobjectPageRange
  simp only [nonempty_mappedPages]
  simp only [mappedPages, Set.mem_inter_iff, Set.mem_Ico]
  generalize self.firstPageIndex = first at *
  generalize self.pageCount = total at *
  rcases lt_or_ge index first with hlt | hge
  · simp only [hlt, true_and, true_or, iff_true, if_true]
    split
    next hdelta => simp; omega
    next hdelta =>
      split
      next hclip =>
        rw [sub32_eq_sub (Nat.zero_le _) htotal]
        simp only [decide_eq_true_eq]
        refine ⟨by omega, fun _ => ⟨by omega, fun page => by omega⟩⟩
      next hclip => refine ⟨by simp; omega, fun _ => ⟨by omega, fun page => by omega⟩⟩
  · simp only [not_lt.mpr hge, false_and, if_false]
    constructor
    · intro h
      by_contra hcon
      -- whatever the sum wraps to, the result is `true` with a count that is too large or zero
      split at h
      next hclip =>
        have hwrap : sub32 total (index - first) ≠ 0 ∨ index - first = total := by
          unfold sub32
          omega
        rcases hwrap with hwrap | hwrap
        · have := (h.1.mp (by simpa using hwrap)); omega
        · omega
      next hclip =>
        have := h.1.mp rfl
        have := (h.2 rfl).1
        omega
    · rintro ⟨hpos, hle, hfit⟩
      split
      next hclip =>
        rw [sub32_eq_sub (by omega) htotal]
        simp only [decide_eq_true_eq]
        refine ⟨by omega, fun _ => ⟨by omega, fun page => by omega⟩⟩
      next hclip => refine ⟨by simp; omega, fun _ => ⟨by omega, fun page => by omega⟩⟩

/-- A region that maps the first page of a VM object. -/
def onePage : Region where
  id := 0
  range := ⟨0x800000, pageSize⟩
  offsetInVMObject := 0
  vmobject := ⟨.anonymous, 8 * pageSize⟩
  access := Access.read
  shared := false
  cacheable := true
  stack := false
  mmap := false
  syscallRegion := false
  mapped := true

/-- Pages 5 and 6 of the VM object are said to be mapped by a region that maps page 0. -/
theorem onePage_translates_beyond :
    onePage.translateVmobjectPageRange 5 2 = (true, 5, 2 ^ 32 - 4) ∧
      ¬onePage.TranslatesPageRange 5 2 := by
  refine ⟨by decide, fun h => ?_⟩
  have hmapped := nonempty_mappedPages.mp (h.1.mp (by decide))
  exact absurd hmapped (by decide)

theorem onePage_translates_first : onePage.TranslatesPageRange 0 2 :=
  (translatesPageRange_iff (by decide) (by decide) (by decide) (by decide)).mpr
    (.inr ⟨by decide, by decide, by decide⟩)

end Region

end Kernel
