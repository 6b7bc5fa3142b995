import PranaOS.Kernel.Syscalls.Futex
import PranaOS.Kernel.VM.Space

/-!
# `Kernel/Syscalls/futex.cpp`: the keys of the addresses

A futex that is not private is identified by a VM object and an offset in it. `sys$futex` takes the
offset of its second address from the region of the first one. `keysAgree_iff` says for which regions
this is the key that `FUTEX_WAIT` and `FUTEX_WAKE` have for the address.
-/

namespace Kernel

open AK

namespace Region

/-- `offset_in_vmobject_from_vaddr`. -/
def offsetInVMObjectFromVaddr (self : Region) (vaddr : ℕ) : ℕ :=
  ((self.offsetInVMObject + vaddr - self.range.base : ℤ) % 2 ^ 32).toNat

end Region

namespace Futex

/-- The commands of `sys$futex`, in the number that `futex_op` has under `FUTEX_CMD_MASK`. -/
inductive Cmd where
  | FUTEX_WAIT
  | FUTEX_WAKE
  | FUTEX_REQUEUE
  | FUTEX_CMP_REQUEUE
  | FUTEX_WAKE_OP
  | FUTEX_WAIT_BITSET
  | FUTEX_WAKE_BITSET
deriving DecidableEq, Repr

/-- The commands with a second address. -/
def Cmd.hasSecondAddress (self : Cmd) : Bool :=
  self = FUTEX_REQUEUE ∨ self = FUTEX_CMP_REQUEUE ∨ self = FUTEX_WAKE_OP

/-- The keys of the two addresses, where `vmobject` gives the VM object of a region. -/
def keys (process : ℕ) (space : Space) (vmobject : Region → ℕ) (isPrivate : Bool) (cmd : Cmd)
    (address address2 : ℕ) : KResultOr (FutexKey × Option FutexKey) :=
  if isPrivate then .ok (.ofProcess process address, some (.ofProcess process address2))
  else
    match space.findRegionContaining ⟨address, 4⟩ with
    | none => .error .EFAULT
    | some region =>
      let key := .ofVMObject (vmobject region) (region.offsetInVMObjectFromVaddr address)
      if cmd.hasSecondAddress then
        match space.findRegionContaining ⟨address2, 4⟩ with
        | none => .error .EFAULT
        | some region2 =>
          -- the offset is the one in the region of the first address
          let offset := region.offsetInVMObjectFromVaddr address2
          .ok (key, some (.ofVMObject (vmobject region2) offset))
      else .ok (key, none)

/-- The key that a command has for its second address is the one that `FUTEX_WAIT` and `FUTEX_WAKE`
have for that address. -/
def KeysAgree (process : ℕ) (space : Space) (vmobject : Region → ℕ) (cmd : Cmd)
    (address address2 : ℕ) : Prop :=
  ∀ key key2, keys process space vmobject false cmd address address2 = .ok (key, some key2) →
    ∀ wait ∈ [Cmd.FUTEX_WAIT, .FUTEX_WAKE], ∀ other,
      keys process space vmobject false wait address2 other = .ok (key2, none)

/-- Offsets in two regions agree if the regions have the VM object at the same distance. -/
theorem offsetInVMObjectFromVaddr_eq_iff {region region2 : Region} (vaddr : ℕ) :
    region.offsetInVMObjectFromVaddr vaddr = region2.offsetInVMObjectFromVaddr vaddr ↔
      region.offsetInVMObject + region2.range.base ≡
        region2.offsetInVMObject + region.range.base [MOD 2 ^ 32] := by
  unfold Region.offsetInVMObjectFromVaddr Nat.ModEq
  omega

/-- The keys agree iff the regions of the two addresses have their VM objects at the same distance:
the difference of base and offset is the same in both. -/
theorem keysAgree_iff {process : ℕ} {space : Space} {vmobject : Region → ℕ} {cmd : Cmd}
    {address address2 : ℕ} :
    KeysAgree process space vmobject cmd address address2 ↔
      (cmd.hasSecondAddress = true → ∀ region region2,
        space.findRegionContaining ⟨address, 4⟩ = some region →
        space.findRegionContaining ⟨address2, 4⟩ = some region2 →
        region.offsetInVMObject + region2.range.base ≡
          region2.offsetInVMObject + region.range.base [MOD 2 ^ 32]) := by
  have hwait : ∀ wait ∈ [Cmd.FUTEX_WAIT, .FUTEX_WAKE], wait.hasSecondAddress = false := by decide
  constructor
  · intro h hcmd region region2 hregion hregion2
    have hkeys := h _ _ (by simp only [keys, hregion, hregion2, hcmd]; rfl) .FUTEX_WAIT (by decide) 0
    simp only [keys, hregion2, hwait .FUTEX_WAIT (by decide)] at hkeys
    exact (offsetInVMObjectFromVaddr_eq_iff address2).mp (by simpa using hkeys.symm)
  · intro h key key2 hkeys wait hmem other
    simp only [keys, Bool.false_eq_true, if_false] at hkeys
    split at hkeys
    · cases hkeys
    next region hregion =>
      split at hkeys
      next hcmd =>
        split at hkeys
        · cases hkeys
        next region2 hregion2 =>
          cases hkeys
          have hoffset := (offsetInVMObjectFromVaddr_eq_iff address2).mpr (h hcmd _ _ hregion hregion2)
          simp [keys, hregion2, hwait wait hmem, hoffset]
      next => cases hkeys

/-- A VM object that is mapped twice. -/
def mappedTwice : Space :=
  { Space.create 0 with
    regions := [Region.onePage, { Region.onePage with id := 1, range := ⟨0x900000, pageSize⟩ }] }

/-- Waiters at the start of the second mapping are not found by a requeue from the first one. -/
theorem mappedTwice_requeue :
    keys 0 mappedTwice (fun _ => 7) false .FUTEX_REQUEUE 0x800000 0x900000 =
        .ok (.ofVMObject 7 0, some (.ofVMObject 7 0x100000)) ∧
      keys 0 mappedTwice (fun _ => 7) false .FUTEX_WAIT 0x900000 0 = .ok (.ofVMObject 7 0, none) ∧
      ¬KeysAgree 0 mappedTwice (fun _ => 7) .FUTEX_REQUEUE 0x800000 0x900000 := by
  refine ⟨by rfl, by rfl, fun h => ?_⟩
  have hkeys := h _ _ rfl .FUTEX_WAIT (by decide) 0
  exact absurd hkeys (by decide)

end Futex

end Kernel
