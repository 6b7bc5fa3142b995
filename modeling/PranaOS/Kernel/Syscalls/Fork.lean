import PranaOS.Kernel.Syscalls.Mmap

/-!
# `Kernel/Syscalls/fork.cpp`

The part of `sys$fork` that gives the new process its address space: a copy of the range allocator,
and a clone of every region.
-/

namespace Kernel

open AK

namespace Space

/-- `Space::create` with a parent: the allocator is the one of the parent. -/
def createFromParent (parent : Space) : Space where
  rangeAllocator := parent.rangeAllocator
  regions := []
  regionLookupCache := ⟨none, none⟩
  nextId := 0

/-- The loop of `sys$fork` over the regions of the parent. It gives up if a region cannot be
cloned. -/
def forkLoop (vmobjectCloned : ℕ → Bool) : List Region → Space → Option (Option Space)
  | [], child => some (some child)
  | region :: rest, child => do
    match ← region.clone child.nextId (vmobjectCloned child.nextId) with
    | none => return none
    | some clone =>
      -- the clone is mapped right away
      forkLoop vmobjectCloned rest (child.addRegion { clone with mapped := true })

/-- `sys$fork`: the address space of the child, or `none` in its place if memory is insufficient. -/
def sysFork (self : Space) (promises : Option (List Pledge)) (vmobjectCloned : ℕ → Bool) :
    Option (Option Space) := do
  requirePromise promises .proc
  forkLoop vmobjectCloned self.regions self.createFromParent

/-! ## What the clones are -/

variable {self child child' : Space} {region clone : Region} {vmobjectCloned : ℕ → Bool}

/-- A clone has the range and the flags of the region. -/
theorem clone_eq_some {id : ℕ} {cloned : Bool} (h : region.clone id cloned = some (some clone)) :
    clone.id = id ∧ clone.range = region.range ∧
      clone.access = Region.initialAccess region.access := by
  rw [Region.clone] at h
  split at h
  · simp only [verify_bind_eq_some] at h
    obtain ⟨-, -, h⟩ := h
    obtain ⟨created, hcreated, h⟩ := Option.bind_eq_some_iff.mp h
    obtain ⟨hid, hrange, -, haccess⟩ := createUserAccessible_eq_some hcreated
    cases h
    exact ⟨hid, hrange, haccess⟩
  · rw [verify_bind_eq_some] at h
    obtain ⟨-, h⟩ := h
    split at h
    · simp at h
    · rw [verify_bind_eq_some] at h
      obtain ⟨-, h⟩ := h
      obtain ⟨created, hcreated, h⟩ := Option.bind_eq_some_iff.mp h
      obtain ⟨hid, hrange, -, haccess⟩ := createUserAccessible_eq_some hcreated
      rw [verify_bind_eq_some] at h
      obtain ⟨-, h⟩ := h
      cases h
      exact ⟨hid, hrange, haccess⟩

/-- The loop adds one clone for each region, in order. -/
theorem forkLoop_eq_some {regions : List Region}
    (h : forkLoop vmobjectCloned regions child = some (some child')) :
    ∃ new : List Region, Exchanges child [] new child' ∧
      List.Forall₂ (fun r r' => r'.access = Region.initialAccess r.access) regions new := by
  induction regions generalizing child with
  | nil =>
    simp only [forkLoop, Option.some.injEq] at h
    subst h
    exact ⟨[], .refl _, .nil⟩
  | cons region rest ih =>
    obtain ⟨cloned, hclone, h⟩ := Option.bind_eq_some_iff.mp h
    cases cloned with
    | none => simp at h
    | some clone =>
      obtain ⟨hid, -, haccess⟩ := clone_eq_some hclone
      obtain ⟨new, hadds, hflags⟩ := ih h
      have hone : Exchanges child [] [{ clone with mapped := true }]
          (child.addRegion { clone with mapped := true }) := addRegion_exchanges hid
      exact ⟨_ :: new, hone.trans hadds (.inr rfl), .cons haccess hflags⟩

end Space

end Kernel
