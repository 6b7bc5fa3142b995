import PranaOS.Kernel.Syscalls.RegionHistory

/-!
# Writable or executable

A region should never be writable and executable at the same time, and memory that has been writable
should become executable only by the exception that `sys$mprotect` makes for the dynamic loader.

A region is cut into parts, cloned for another process and remapped, each time as a new object
(`Continues`). Cutting and cloning keep all flags of the region. `sys$mremap` makes the new region
from the protection of the old one, so that what the old one has been is forgotten
(`remapped_file_becomes_executable`). If only regions are remapped that are writable if they have ever
been, memory that has been writable is known as such as long as it is mapped (`wxOk_of_meets`).
-/

namespace Kernel

open AK Transition Option List

namespace Spaces

open Region Space

/-! ## Runs of several processes -/

/-- The calls of the processes, which are given by their number. -/
inductive Call where
  | mmap (p : ℕ) (params : MmapParams) (env : MmapEnv)
  | mprotect (p : ℕ) (promises : Option (List Pledge)) (addr size : UInt32) (prot : BitVec 32)
      (inode : InodeState)
  | munmap (p : ℕ) (promises : Option (List Pledge)) (canGrow : Bool) (addr size : UInt32)
  | mremap (p : ℕ) (promises : Option (List Pledge)) (params : MremapParams) (inodeSize : ℕ)
      (pagesMapped : Bool)
  | fork (p : ℕ) (promises : Option (List Pledge)) (vmobjectCloned : ℕ → Bool)

variable (spaces : List Space)

/-- A call of the process `p` that concerns its own address space. -/
def onSpace (p : ℕ) (call : Space → Option SyscallResult) :
    Option (List Space) := do
  let space ← spaces[p]?
  let (_, space) ← call space
  return spaces.set p space

/-- One call, which may succeed or return an error. -/
def step : Call → Option (List Space)
  | .mmap p params env => onSpace spaces p fun space => sysMmap space params env
  | .mprotect p promises addr size prot inode =>
    onSpace spaces p fun space => sysMprotect space promises addr size prot inode
  | .munmap p promises canGrow addr size =>
    onSpace spaces p fun space => sysMunmap space promises canGrow addr size
  | .mremap p promises params inodeSize pagesMapped =>
    onSpace spaces p fun space => sysMremap space promises params inodeSize pagesMapped
  | .fork p promises vmobjectCloned => do
    let space ← spaces[p]?
    match ← space.sysFork promises vmobjectCloned with
    | none => return spaces
    | some child => return spaces ++ [child]

/-- The regions of all processes. -/
def mappings : Set (ℕ × Region) :=
  {m | ∃ space, spaces[m.1]? = some space ∧ m.2 ∈ space.regions}

/-- The region `m'` after a call continues the region `m` before it, in the same process or as its clone
in a new process. The clones are created in the order of the regions. -/
def Continues (spaces : List Space) (call : Call) (spaces' : List Space) (m m' : ℕ × Region) :
    Prop :=
  (m'.1 = m.1 ∧ ∃ space space', spaces[m.1]? = some space ∧ spaces'[m.1]? = some space' ∧
    space.Continues space' m.2 m'.2) ∨
  ((∃ promises vmobjectCloned, call = .fork m.1 promises vmobjectCloned) ∧ m'.1 = spaces.length ∧
    ∃ space, spaces[m.1]? = some space ∧ space.regions[m'.2.id]? = some m.2)

/-- How the flags of a region change in a call. -/
def Change : Call → ℕ × Region → ℕ × Region → Prop
  | .mprotect _ _ _ _ prot inode, m, m' => ProtChange prot inode m.2 m'.2
  | .mremap p _ params _ _, m, m' =>
    m'.2.access = m.2.access ∨ ∃ space, spaces[p]? = some space ∧ space.RemapChange params m.2 m'.2
  | .mmap .., m, m' | .munmap .., m, m' | .fork .., m, m' => m'.2.access = m.2.access

/-- All address spaces are sound. -/
def Sound (spaces : List Space) : Prop := ∀ space ∈ spaces, space.Sound

variable {spaces spaces' : List Space} {call : Call} {m m' : ℕ × Region}

theorem onSpace_eq_some {p : ℕ} {f : Space → Option SyscallResult}
    (h : onSpace spaces p f = some spaces') :
    ∃ space result space', spaces[p]? = some space ∧ f space = some (result, space') ∧
      spaces' = spaces.set p space' := by
  obtain ⟨space, hspace, h⟩ := bind_eq_some_iff.mp h
  obtain ⟨⟨result, space'⟩, hcall, h⟩ := bind_eq_some_iff.mp h
  cases h
  exact ⟨space, result, space', hspace, hcall, rfl⟩

theorem Sound.set {p : ℕ} {space' : Space} (h : Sound spaces) (hspace' : space'.Sound) :
    Sound (spaces.set p space') := by
  intro space hspace
  rcases mem_or_eq_of_mem_set hspace with hspace | rfl
  · exact h space hspace
  · exact hspace'

/-- A call of one process changes the flags of its own regions only. -/
theorem change_of_evolves {p : ℕ} {f : Space → Option SyscallResult}
    {change : Space → Region → Region → Prop} (h : Sound spaces)
    (hstep : onSpace spaces p f = some spaces')
    (hcall : ∀ p promises vmobjectCloned, call ≠ .fork p promises vmobjectCloned)
    (hevolves : ∀ space result space', space.Sound → f space = some (result, space') →
      Evolves (change space) space space')
    (hchange : ∀ m m' : ℕ × Region, (m'.2.access = m.2.access ∨
      ∃ space, spaces[p]? = some space ∧ change space m.2 m'.2) → Change spaces call m m') :
    Sound spaces' ∧ ∀ m ∈ mappings spaces, ∀ m' ∈ mappings spaces',
      Continues spaces call spaces' m m' → Change spaces call m m' := by
  obtain ⟨space, result, space', hp, hf, rfl⟩ := onSpace_eq_some hstep
  have hevolves := hevolves space result space' (h space (mem_of_getElem? hp)) hf
  refine ⟨h.set hevolves.1, fun m hm m' hm' hcontinues => hchange m m' ?_⟩
  rcases hcontinues with ⟨hq, old, new, hold, hnew, hcontinues⟩ | ⟨⟨promises, cloned, hfork⟩, -⟩
  · obtain ⟨old', hold', hmem⟩ := hm
    obtain ⟨new', hnew', hmem'⟩ := hm'
    rw [hold, some.injEq] at hold'
    rw [hq, hnew, some.injEq] at hnew'
    subst hold' hnew'
    by_cases hpq : m.1 = p
    · subst hpq
      rw [hp, some.injEq] at hold
      rw [getElem?_set_self (List.getElem?_eq_some_iff.mp hp).1, some.injEq] at hnew
      subst hold hnew
      exact .inr ⟨space, hp, hevolves.2 _ hmem _ hmem' hcontinues⟩
    · rw [getElem?_set_ne (Ne.symm hpq), hold, some.injEq] at hnew
      subst hnew
      exact .inl ((h old (mem_of_getElem? hold)).evolves_refl.2 _ hmem _ hmem' hcontinues)
  · exact absurd hfork (hcall _ _ _)

/-- The child is sound, and the clone in the place `i` has the flags of the region in the place `i`. -/
theorem forkLoop_sound {space child : Space} {vmobjectCloned : ℕ → Bool} (h : space.Sound)
    (hfork : forkLoop vmobjectCloned space.regions space.createFromParent = some (some child)) :
    child.Sound ∧ ∀ r' ∈ child.regions, ∀ r, space.regions[r'.id]? = some r →
      r'.access = r.access := by
  obtain ⟨new, hadds, hflags⟩ := forkLoop_eq_some hfork
  obtain ⟨⟨kept, hkept, hperm⟩, -, -, hfresh, -⟩ := id hadds
  obtain rfl : kept = [] := by simpa [createFromParent] using hkept
  rw [append_nil] at hperm
  have hclone : ∀ r' ∈ new, ∃ r ∈ space.regions, space.regions[r'.id]? = some r ∧
      r'.access = r.access := by
    intro r' hr'
    obtain ⟨i, hi, rfl⟩ := getElem_of_mem hr'
    have hid : new[i].id = i := by
      have hget : (new.map Region.id)[i]? = some new[i].id := by simp [hi]
      rw [hfresh, getElem?_range' hi] at hget
      simpa [createFromParent] using hget.symm
    have hlt : i < space.regions.length := hflags.length_eq ▸ hi
    have hmem := getElem_mem hlt
    refine ⟨space.regions[i], hmem, ?_, (hflags.get hlt hi).trans (h.2 _ hmem).1⟩
    rw [hid, getElem?_eq_getElem hlt]
  have hempty : space.createFromParent.IdsOk :=
    ⟨by simp [createFromParent], by simp [createFromParent]⟩
  refine ⟨⟨hempty.exchange hadds, fun r' hr' => ?_⟩, fun r' hr' r hr => ?_⟩
  · obtain ⟨r, hr, -, haccess⟩ := hclone r' (hperm.mem_iff.mp hr')
    exact haccess ▸ h.2 r hr
  · obtain ⟨r₀, -, hr₀, haccess⟩ := hclone r' (hperm.mem_iff.mp hr')
    rw [hr₀, some.injEq] at hr
    exact hr ▸ haccess

/-- **One call.** The address spaces stay sound, and regions that are continued change as they may. -/
theorem change_of_step (h : Sound spaces) (hstep : step spaces call = some spaces') :
    Sound spaces' ∧ ∀ m ∈ mappings spaces, ∀ m' ∈ mappings spaces',
      Continues spaces call spaces' m m' → Change spaces call m m' := by
  cases call with
  | mmap p params env =>
    refine change_of_evolves h hstep (by simp) (fun _ _ _ => sysMmap_evolves) ?_
    rintro m m' (hsame | ⟨-, -, hsame⟩) <;> exact hsame
  | mprotect p promises addr size prot inode =>
    refine change_of_evolves h hstep (by simp) (fun _ _ _ => sysMprotect_evolves) ?_
    rintro m m' (hsame | ⟨-, -, hchange⟩)
    · exact .inl hsame
    · exact hchange
  | munmap p promises canGrow addr size =>
    refine change_of_evolves h hstep (by simp) (fun _ _ _ => sysMunmap_evolves) ?_
    rintro m m' (hsame | ⟨-, -, hsame⟩) <;> exact hsame
  | mremap p promises params inodeSize pagesMapped =>
    exact change_of_evolves h hstep (by simp) (fun _ _ _ => sysMremap_evolves) fun _ _ => id
  | fork p promises vmobjectCloned =>
    obtain ⟨space, hp, hstep⟩ := bind_eq_some_iff.mp hstep
    obtain ⟨forked, hfork, hstep⟩ := bind_eq_some_iff.mp hstep
    obtain ⟨-, -, hfork⟩ := bind_eq_some_iff.mp hfork
    have hparent := h space (mem_of_getElem? hp)
    -- the processes that were there before
    have hold : ∀ m ∈ mappings spaces, ∀ m' ∈ mappings spaces', m'.1 = m.1 →
        (∃ old new, spaces[m.1]? = some old ∧ spaces'[m.1]? = some new ∧
          old.Continues new m.2 m'.2) → spaces'[m.1]? = spaces[m.1]? → m'.2.access = m.2.access := by
      rintro m ⟨old, hold, hmem⟩ m' ⟨new, hnew, hmem'⟩ hq ⟨old', new', hold', hnew', hcontinues⟩ hsame
      rw [hq, hsame, hold, some.injEq] at hnew
      rw [hsame] at hnew'
      obtain rfl := some.inj (hold.symm.trans hold')
      obtain rfl := some.inj (hold.symm.trans hnew')
      subst hnew
      exact (h _ (mem_of_getElem? hold)).evolves_refl.2 _ hmem _ hmem' hcontinues
    cases forked with
    | none =>
      cases hstep
      refine ⟨h, fun m hm m' hm' hcontinues => ?_⟩
      rcases hcontinues with ⟨hq, hcontinues⟩ | ⟨-, hlength, -⟩
      · exact hold m hm m' hm' hq hcontinues rfl
      · obtain ⟨new, hnew, -⟩ := hm'
        have hlt := (List.getElem?_eq_some_iff.mp hnew).1
        omega
    | some child =>
      cases hstep
      obtain ⟨hchild, hclone⟩ := forkLoop_sound hparent hfork
      refine ⟨fun s hs => ?_, fun m hm m' hm' hcontinues => ?_⟩
      · rcases mem_append.mp hs with hs | hs
        · exact h s hs
        · exact mem_singleton.mp hs ▸ hchild
      · rcases hcontinues with ⟨hq, hcontinues⟩ | ⟨⟨_, _, hcall⟩, hlength, parent, hparent', hr⟩
        · refine hold m hm m' hm' hq hcontinues (getElem?_append_left ?_)
          obtain ⟨old, hold, -⟩ := hm
          exact (List.getElem?_eq_some_iff.mp hold).1
        · obtain ⟨new, hnew, hmem'⟩ := hm'
          rw [hlength, getElem?_concat_length, some.injEq] at hnew
          subst hnew
          cases hcall
          rw [hp, some.injEq] at hparent'
          subst hparent'
          exact hclone _ hmem' _ hr

/-! ## Memory that has been writable -/

/-- The address spaces, and the regions that are or continue a region that has been writable. -/
structure Traced where
  spaces : List Space
  everWritable : Set (ℕ × Region)

variable (t : Traced)

/-- The regions after a call that are writable or continue one that has been writable. -/
def everWritableAfter (call : Call) (spaces' : List Space) : Set (ℕ × Region) :=
  {m' | m' ∈ mappings spaces' ∧
    (m'.2.isWritable = true ∨ ∃ m ∈ t.everWritable, Continues t.spaces call spaces' m m')}

/-- One call, with the record of what has been writable. -/
def tracedStep (call : Call) : Option Traced :=
  (step t.spaces call).map fun spaces' => ⟨spaces', everWritableAfter t call spaces'⟩

/-- Fresh processes, for any random numbers. -/
def fresh (randoms : List UInt8) : Traced := ⟨randoms.map Space.create, ∅⟩

/-- The call makes the region executable by the exception for the dynamic loader. -/
def ByLoaderException (r : Region) : Call → Prop
  | .mprotect _ _ _ _ prot inode =>
    shouldMakeExecutableExceptionForDynamicLoader (hasFlag prot protRead) (hasFlag prot protWrite)
      (hasFlag prot protExec) r inode.elfSharedObject = true
  | _ => False

/-- The call is one of `sys$mremap`. -/
def Call.isMremap : Call → Bool
  | .mremap .. => true
  | _ => false

/-- No region is writable and executable; memory that has been writable becomes executable only by the
exception for the dynamic loader, whatever is called next; and cutting and cloning keep what a region has
been. -/
structure WxOk (t : Traced) : Prop where
  exclusive : ∀ m ∈ mappings t.spaces, ¬(m.2.isWritable = true ∧ m.2.isExecutable = true)
  executable : ∀ call spaces', step t.spaces call = some spaces' →
    ∀ m ∈ mappings t.spaces, ∀ m' ∈ mappings spaces', Continues t.spaces call spaces' m m' →
      m.2.hasBeenWritable = true ∨ m ∈ t.everWritable → m.2.isExecutable = false →
        m'.2.isExecutable = true → ByLoaderException m.2 call
  history : ∀ call spaces', step t.spaces call = some spaces' → call.isMremap = false →
    ∀ m ∈ mappings t.spaces, ∀ m' ∈ mappings spaces', Continues t.spaces call spaces' m m' →
      KeepsHistory m.2 m'.2

/-- A region that `sys$mremap` replaces is writable if it has ever been. -/
def CallOk : Call → Prop
  | .mremap p _ params _ _ => ∀ space, t.spaces[p]? = some space → ∀ region,
      space.Remaps params region → region.hasBeenWritable = true → region.isWritable = true
  | _ => True

theorem Change.keepsHistory (h : Change spaces call m m') (hcall : call.isMremap = false) :
    KeepsHistory m.2 m'.2 := by
  cases call with
  | mmap | munmap | fork => exact keepsHistory_of_eq h
  | mprotect p promises addr size prot inode =>
    rcases h with h | ⟨-, h⟩
    · exact keepsHistory_of_eq h
    · exact keepsHistory_setProt h
  | mremap => simp [Call.isMremap] at hcall

theorem isExecutable_of_access_eq {r r' : Region} (h : r'.access = r.access) :
    r'.isExecutable = r.isExecutable := by
  rw [Region.isExecutable, Region.isExecutable, h]

/-- A region that is known to have been writable becomes executable only by the exception. -/
theorem Change.byLoaderException (h : Change spaces call m m')
    (hwritable : m.2.hasBeenWritable = true) (hbefore : m.2.isExecutable = false)
    (hafter : m'.2.isExecutable = true) : ByLoaderException m.2 call := by
  have hchanged : m'.2.access ≠ m.2.access := by
    intro heq
    rw [isExecutable_of_access_eq heq, hbefore] at hafter
    exact Bool.noConfusion hafter
  cases call with
  | mmap | munmap | fork => exact absurd h hchanged
  | mprotect p promises addr size prot inode =>
    obtain ⟨hvalid, haccess⟩ := h.resolve_left hchanged
    rw [Region.isExecutable, haccess, access_setProt, hasFlag_execute_protect] at hafter
    -- the check for regions that have been writable is reached, and it only accepts the exception
    simp only [validateMmapProt] at hvalid
    split_ifs at hvalid with _ _ _ _ _ hexception
    · exact hvalid
    · simp [hafter, hwritable] at hexception
  | mremap p promises params inodeSize pagesMapped =>
    obtain ⟨space, -, hremap⟩ := h.resolve_left hchanged
    obtain ⟨-, haccess⟩ := hremap.resolve_left hchanged
    rw [Region.isExecutable, haccess, hasFlag_execute_remappedAccess] at hafter
    rw [Region.isExecutable, hafter] at hbefore
    exact Bool.noConfusion hbefore

/-- The address spaces are sound, and what has been writable is known to have been. -/
structure Recorded (t : Traced) : Prop where
  sound : Sound t.spaces
  mem : ∀ m ∈ t.everWritable, m ∈ mappings t.spaces
  recorded : ∀ m ∈ t.everWritable, m.2.hasBeenWritable = true

theorem Recorded.step {t t' : Traced} (h : Recorded t) (hok : CallOk t call)
    (htraced : tracedStep t call = some t') : Recorded t' := by
  obtain ⟨spaces', hstep, rfl⟩ := map_eq_some_iff.mp htraced
  obtain ⟨hsound, hchange⟩ := change_of_step h.sound hstep
  refine ⟨hsound, fun m' hm' => hm'.1, ?_⟩
  rintro m' ⟨hmem', hwritable | ⟨m, hm, hcontinues⟩⟩
  · obtain ⟨space, hspace, hr⟩ := hmem'
    exact hasBeenWritable_of_write ((hsound space (mem_of_getElem? hspace)).2 _ hr)
      hwritable
  · have hchange := hchange m (h.mem m hm) m' hmem' hcontinues
    have hrecorded := h.recorded m hm
    by_cases hcall : call.isMremap = false
    · exact (hchange.keepsHistory hcall).writable hrecorded
    · cases call with
      | mmap | munmap | fork | mprotect => exact absurd rfl hcall
      | mremap p promises params inodeSize pagesMapped =>
        rcases hchange with hsame | ⟨space, hspace, hsame | ⟨hremaps, haccess⟩⟩
        · exact (keepsHistory_of_eq hsame).writable hrecorded
        · exact (keepsHistory_of_eq hsame).writable hrecorded
        · -- the region is writable, so the new one is made writable as well
          have hwritable := hok space hspace m.2 hremaps hrecorded
          rw [Region.hasBeenWritable, haccess, hasBeenWritable_remappedAccess]
          exact hwritable

theorem Recorded.wxOk {t : Traced} (h : Recorded t) : WxOk t := by
  refine ⟨?_, ?_, ?_⟩
  · rintro m ⟨space, hspace, hr⟩
    exact ((h.sound space (mem_of_getElem? hspace)).2 _ hr).2
  · intro call spaces' hstep m hm m' hm' hcontinues hever hbefore hafter
    have hwritable : m.2.hasBeenWritable = true := hever.elim id (h.recorded m)
    exact ((change_of_step h.sound hstep).2 m hm m' hm' hcontinues).byLoaderException hwritable
      hbefore hafter
  · intro call spaces' hstep hcall m hm m' hm' hcontinues
    exact ((change_of_step h.sound hstep).2 m hm m' hm' hcontinues).keepsHistory hcall

/-- **Writable or executable.** In every state reached by calls of any processes in which only regions
are remapped that are writable if they have ever been, no region is writable and executable, and memory
that has been writable becomes executable only by the exception for the dynamic loader. -/
theorem wxOk_of_meets (randoms : List UInt8) (calls : List Call) (t : Traced)
    (hok : Meets tracedStep CallOk (fresh randoms) calls)
    (hrun : run tracedStep (fresh randoms) calls = some t) : WxOk t := by
  refine (run_induction (I := Recorded) (fun _ _ _ h hok hstep => h.step hok hstep) ?_ hok hrun).wxOk
  refine ⟨fun space hspace => ?_, by simp [fresh], by simp [fresh]⟩
  obtain ⟨random, -, rfl⟩ := List.mem_map.mp hspace
  exact ⟨⟨by simp [Space.create], by simp [Space.create]⟩, by simp [Space.create]⟩

/-- A page of a file that is mapped shared, readable and writable. -/
def sharedFilePage : Call :=
  .mmap 0 ⟨0x10001000, 0x1000, 0x1000, protRead ||| protWrite, mapShared ||| mapFixed, 0, none⟩
    ⟨none, fun _ => 0, true, true,
      some ⟨false, true, true, some ⟨true, true, false, false, false⟩, .inodeFile 0x1000 true⟩⟩

/-- Changes the protection of that page. The file is no ELF file. -/
def protectPage (prot : BitVec 32) : Call :=
  .mprotect 0 none 0x10001000 0x1000 prot ⟨true, true, false, false, false⟩

/-- Makes the mapping of that page private. -/
def remapPage : Call := .mremap 0 none ⟨0x10001000, 0x1000, mapPrivate⟩ 0x1000 true

/-- A page of a file is mapped and made read-only, and the process forks. -/
theorem wxOk_of_meets_fork :
    ∃ t, run tracedStep (fresh [0]) [sharedFilePage, protectPage protRead,
        .fork 0 none fun _ => true] = some t ∧ WxOk t := by
  have heval : (run tracedStep (fresh [0]) [sharedFilePage, protectPage protRead,
      .fork 0 none fun _ => true]).isSome = true := by
    decide +kernel
  obtain ⟨t, hrun⟩ := isSome_iff_exists.mp heval
  refine ⟨t, hrun, wxOk_of_meets [0] _ t ?_ hrun⟩
  exact ⟨trivial, fun _ _ => ⟨trivial, fun _ _ => ⟨trivial, fun _ _ => trivial⟩⟩⟩

/-- The region of that page. -/
def pageRegion (id : ℕ) (kind : VMObjectKind) (access : BitVec 8) (shared : Bool) : Region :=
  ⟨id, ⟨0x10001000, 0x1000⟩, 0, ⟨kind, 0x1000⟩, access, shared, true, false, true, false, true⟩

/-- The address space in which only that page is mapped. -/
def pageSpace (region : Region) (cache : RegionLookupCache) (nextId : ℕ) : Space :=
  ⟨⟨[⟨0x00800000, 0x0f801000⟩, ⟨0x10002000, 0xadffe000⟩], ⟨0x00800000, 0xbd800000⟩⟩, [region], cache,
    nextId⟩

/-- A page of a file that is no ELF file is mapped shared and writable, made read-only and remapped as
private. It can then be made executable. -/
theorem remapped_file_becomes_executable :
    ∃ t, run tracedStep (fresh [0]) [sharedFilePage, protectPage protRead, remapPage] = some t ∧
      ¬WxOk t := by
  let r₁ := pageRegion 0 .sharedInode 0x33 true
  let r₂ := pageRegion 0 .sharedInode 0x31 true
  let r₃ := pageRegion 1 .privateInode 0x11 false
  let r₄ := pageRegion 1 .privateInode 0x55 false
  let s₁ := pageSpace r₁ ⟨none, none⟩ 1
  let s₂ := pageSpace r₂ ⟨some ⟨0x10001000, 0x1000⟩, some 0⟩ 1
  let s₃ := pageSpace r₃ ⟨some ⟨0x10001000, 0x1000⟩, none⟩ 2
  let s₄ := pageSpace r₄ ⟨some ⟨0x10001000, 0x1000⟩, some 1⟩ 2
  have h₁ : step [Space.create 0] sharedFilePage = some [s₁] := by decide +kernel
  have h₂ : step [s₁] (protectPage protRead) = some [s₂] := by decide +kernel
  have h₃ : step [s₂] remapPage = some [s₃] := by decide +kernel
  have h₄ : step [s₃] (protectPage (protRead ||| protExec)) = some [s₄] := by decide +kernel
  let t₁ : Traced := ⟨[s₁], everWritableAfter (fresh [0]) sharedFilePage [s₁]⟩
  let t₂ : Traced := ⟨[s₂], everWritableAfter t₁ (protectPage protRead) [s₂]⟩
  let t₃ : Traced := ⟨[s₃], everWritableAfter t₂ remapPage [s₃]⟩
  refine ⟨t₃, ?_, fun hwx => ?_⟩
  · have ht₁ : tracedStep (fresh [0]) sharedFilePage = some t₁ := congrArg (Option.map _) h₁
    have ht₂ : tracedStep t₁ (protectPage protRead) = some t₂ := congrArg (Option.map _) h₂
    have ht₃ : tracedStep t₂ remapPage = some t₃ := congrArg (Option.map _) h₃
    simp only [run, ht₁, ht₂, ht₃]
  · have hmem : ∀ r : Region, ∀ cache next, (0, r) ∈ mappings [pageSpace r cache next] :=
      fun r cache next => ⟨_, rfl, mem_singleton_self r⟩
    -- the page has been writable
    have hever₁ : (0, r₁) ∈ t₁.everWritable := ⟨hmem _ _ _, .inl (by decide)⟩
    have hever₂ : (0, r₂) ∈ t₂.everWritable :=
      ⟨hmem _ _ _, .inr ⟨_, hever₁, .inl ⟨rfl, s₁, s₂, rfl, rfl, .inl rfl⟩⟩⟩
    have hever₃ : (0, r₃) ∈ t₃.everWritable := by
      refine ⟨hmem _ _ _, .inr ⟨_, hever₂, .inl ⟨rfl, s₂, s₃, rfl, rfl, .inr ⟨by decide, ?_, ?_⟩⟩⟩⟩
      · intro x hx
        rw [mem_singleton.mp hx]
        decide
      · decide
    have hexception := hwx.executable _ _ h₄ (0, r₃) (hmem _ _ _) (0, r₄) (hmem _ _ _)
      (.inl ⟨rfl, s₃, s₄, rfl, rfl, .inl rfl⟩) (.inr hever₃) (by decide) (by decide)
    have hrefused : shouldMakeExecutableExceptionForDynamicLoader true false true r₃ false = false := by
      decide
    exact Bool.noConfusion (hrefused.symm.trans hexception)

end Spaces

end Kernel
