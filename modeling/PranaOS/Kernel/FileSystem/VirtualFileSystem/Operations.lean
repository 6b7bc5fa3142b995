import PranaOS.Kernel.FileSystem.VirtualFileSystem

/-!
# `Kernel/FileSystem/VirtualFileSystem.cpp`: the operations that add directory entries

`open` with `O_CREAT`, `mknod`, `mkdir`, `symlink`, `link` and `rename`. An operation is `none` where
a `VERIFY` fails or a null pointer is followed. Otherwise it returns an error or a result, and the
file systems after it, also with an error.

The file descriptions that `open` returns are left out. Whether one can be made, or a device or a pipe
be opened, is an argument.

Each operation adds at most one entry (`execute_adds`), in the directory and under the name that its
path resolves to (`Operation.place`).
-/

namespace Kernel

open AK Option

/-- The result of an operation, and the file systems after it. -/
abbrev Outcome (α : Type) := Option (KResultOr α × VFS)

/-- `if (auto result = x; result.is_error()) return result;`, and then the rest. -/
def Outcome.andThen {α β : Type} (x : Outcome α) (rest : α → VFS → Outcome β) : Outcome β :=
  match x with
  | none => none
  | some (.error e, vfs) => some (.error e, vfs)
  | some (.ok a, vfs) => rest a vfs

/-- A sequence succeeds if both of its parts do. -/
theorem Outcome.andThen_eq_ok {α β : Type} {x : Outcome α} {rest : α → VFS → Outcome β} {b : β}
    {final : VFS} :
    x.andThen rest = some (.ok b, final) ↔
      ∃ a vfs, x = some (.ok a, vfs) ∧ rest a vfs = some (.ok b, final) := by
  unfold andThen
  split <;> simp

/-- `MS_NODEV`. -/
def msNodev : BitVec 32 := 1 <<< 0
/-- `MS_NOEXEC`. -/
def msNoexec : BitVec 32 := 1 <<< 1

/-- The loop of `mkdir` that trims trailing slashes, on the reversed path. -/
def trimLeadingSlashes : Str → Str
  | ch :: next :: rest => if ch = '/' then trimLeadingSlashes (next :: rest) else ch :: next :: rest
  | path => path

/-- The path without its trailing slashes. -/
def trimTrailingSlashes (path : Str) : Str := (trimLeadingSlashes path.reverse).reverse

namespace VFS

variable (vfs : VFS) (process : Process)

/-- The metadata of the inode of a custody. -/
def metadataOf (custody : Custody) : InodeMetadata := (vfs.inodes custody.inode).metadata

variable (path : Str)

/-- What `mknod`, `mkdir` and `symlink` check: the parent of a path that does not exist yet. -/
def parentOfNewPath (base : Custody) : KResultOr Custody :=
  let resolution := vfs.resolvePath process 0 path base
  match resolution.result with
  | .ok _ => .error .EEXIST
  | .error e =>
    match resolution.outParent with
    | none => .error .ENOENT
    | some parentCustody =>
      if e ≠ .ENOENT then .error e
      else if !(vfs.metadataOf parentCustody).mayWrite process.credentials then .error .EACCES
      else if parentCustody.isReadonly vfs then .error .EROFS
      else .ok parentCustody

/-- What follows these checks: the new inode is created as a child of the parent. -/
def createInParent (parentCustody : KResultOr Custody) (name : Str) (mode : BitVec 16)
    (dev uid gid : ℕ) : Outcome ℕ :=
  match parentCustody with
  | .error e => some (.error e, vfs)
  | .ok parentCustody => vfs.createChild parentCustody.inode name mode dev uid gid

/-- `mknod`. -/
def mknod (mode : BitVec 16) (dev : ℕ) (base : Custody) : Outcome Unit :=
  if !isRegularFile mode && !isBlockDevice mode && !isCharacterDevice mode && !isFifo mode &&
      !isSocket mode then some (.error .EINVAL, vfs)
  else
    Outcome.andThen
      (vfs.createInParent (vfs.parentOfNewPath process path base) (LexicalPath.basename path) mode
        dev process.credentials.euid process.credentials.egid)
      fun _ vfs => some (.ok (), vfs)

/-- `mkdir`. -/
def mkdir (mode : BitVec 16) (base : Custody) : Outcome Unit :=
  let path := trimTrailingSlashes path
  Outcome.andThen
    (vfs.createInParent (vfs.parentOfNewPath process path base) (LexicalPath.basename path)
      (sIfdir ||| mode) 0 process.credentials.euid process.credentials.egid)
    fun _ vfs => some (.ok (), vfs)

/-- `write_bytes` of the target into a new link. The buffer of a file that stays empty is null. -/
def writeLink (inode : ℕ) (target : Str) : Option (KResultOr Unit × VFS) := do
  if vfs.readonly (vfs.inodes inode).fs then return (.error .EROFS, vfs)
  verify (target ≠ [])
  return (.ok (), vfs.setInode inode { vfs.inodes inode with content := target })

/-- `symlink`. -/
def symlink (target linkpath : Str) (base : Custody) : Outcome Unit :=
  Outcome.andThen
    (vfs.createInParent (vfs.parentOfNewPath process linkpath base) (LexicalPath.basename linkpath)
      (sIflnk ||| 0o644) 0 process.credentials.euid process.credentials.egid)
    fun inode vfs => vfs.writeLink inode target

/-- `create`. -/
def create (options : BitVec 32) (mode : BitVec 16) (parentCustody : Custody)
    (owner : Option (ℕ × ℕ)) (description : KResultOr Unit) : Outcome Unit :=
  let basename := LexicalPath.basename path
  match process.validatePathAgainstProcessVeil (parentCustody.absolutePath ++ '/' :: basename)
    options with
  | .error e => some (.error e, vfs)
  | .ok _ =>
    let mode :=
      if !isSocket mode && !isFifo mode && !isBlockDevice mode && !isCharacterDevice mode then
        mode ||| 0o100000
      else mode
    if !(vfs.metadataOf parentCustody).mayWrite process.credentials then some (.error .EACCES, vfs)
    else if parentCustody.isReadonly vfs then some (.error .EROFS, vfs)
    else
      let (uid, gid) := owner.getD (process.credentials.euid, process.credentials.egid)
      Outcome.andThen (vfs.createChild parentCustody.inode basename mode 0 uid gid)
        fun _ vfs => some (description, vfs)

/-- What `open` does with a file that exists. -/
def openExisting (options : BitVec 32) (custody : Custody) (description : KResultOr Unit) :
    Outcome Unit :=
  let metadata := vfs.metadataOf custody
  let fail (e : Errno) : Outcome Unit := some (.error e, vfs)
  if hasAnyBit options oDirectory && !isDirectory metadata.mode then fail .ENOTDIR
  else if hasAnyBit options oRdonly && !metadata.mayRead process.credentials then fail .EACCES
  else if hasAnyBit options oWronly && !metadata.mayWrite process.credentials then fail .EACCES
  else if hasAnyBit options oWronly && isDirectory metadata.mode then fail .EISDIR
  else if hasAnyBit options oExec && (!metadata.mayExecute process.credentials ||
      hasAnyBit custody.mountFlags msNoexec) then fail .EACCES
  else if isFifo metadata.mode then
    if hasAnyBit options oWronly || hasAnyBit options oRdonly then some (description, vfs)
    else fail .EINVAL
  else if isCharacterDevice metadata.mode || isBlockDevice metadata.mode then
    if hasAnyBit custody.mountFlags msNodev then fail .EACCES else some (description, vfs)
  else if hasAnyBit options oWronly && custody.isReadonly vfs then fail .EROFS
  else if hasAnyBit options oWronly && hasAnyBit options oTrunc then
    some (description, vfs.setInode custody.inode { vfs.inodes custody.inode with content := [] })
  else some (description, vfs)

/-- `open`. -/
def «open» (options : BitVec 32) (mode : BitVec 16) (base : Custody)
    (owner : Option (ℕ × ℕ)) (description : KResultOr Unit) : Outcome Unit :=
  if hasAnyBit options oCreat && hasAnyBit options oDirectory then some (.error .EINVAL, vfs)
  else
    let resolution := vfs.resolvePath process options path base
    if hasAnyBit options oCreat then
      match resolution.outParent with
      | none => some (.error .ENOENT, vfs)
      | some parentCustody =>
        match resolution.result with
        | .error e =>
          if e ≠ .ENOENT then some (.error e, vfs)
          else vfs.create process path options mode parentCustody owner description
        | .ok custody =>
          if hasAnyBit options oExcl then some (.error .EEXIST, vfs)
          else vfs.openExisting process options custody description
    else
      match resolution.result with
      | .error e => some (.error e, vfs)
      | .ok custody => vfs.openExisting process options custody description

/-- `hard_link_allowed`. -/
def hardLinkAllowed (inode : ℕ) : Bool :=
  let metadata := (vfs.inodes inode).metadata
  process.credentials.euid = metadata.uid ||
    (isRegularFile metadata.mode && !isSetuid metadata.mode &&
      !(isSetgid metadata.mode && metadata.mode &&& sIxgrp ≠ 0) &&
      metadata.mayWrite process.credentials)

/-- The checks of `link` on the file and on the parent of the new path. -/
def linkChecks (oldInode : ℕ) (parentCustody : Custody) : KResultOr Unit :=
  if (vfs.inodes parentCustody.inode).fs ≠ (vfs.inodes oldInode).fs then .error .EXDEV
  else if !(vfs.metadataOf parentCustody).mayWrite process.credentials then .error .EACCES
  else if (vfs.inodes oldInode).isDirectory then .error .EPERM
  else if parentCustody.isReadonly vfs then .error .EROFS
  else if !vfs.hardLinkAllowed process oldInode then .error .EPERM
  else .ok ()

/-- `link`. Any error of the second resolution is taken for a missing file. -/
def link (oldPath newPath : Str) (base : Custody) : Outcome Unit :=
  let fail (e : Errno) : Outcome Unit := some (.error e, vfs)
  match (vfs.resolvePath process 0 oldPath base).result with
  | .error e => fail e
  | .ok oldCustody =>
    let resolution := vfs.resolvePath process 0 newPath base
    match resolution.result, resolution.outParent with
    | .ok _, _ => fail .EEXIST
    | .error _, none => fail .ENOENT
    | .error _, some parentCustody =>
      match vfs.linkChecks process oldCustody.inode parentCustody with
      | .error e => fail e
      | .ok _ => vfs.addChild parentCustody.inode oldCustody.inode (LexicalPath.basename newPath)

/-- A directory with the sticky bit protects the files of other users. -/
def stickyForbids (directory : Custody) (inode : ℕ) : Bool :=
  isSticky (vfs.metadataOf directory).mode && !process.credentials.isSuperuser &&
    (vfs.inodes inode).metadata.uid ≠ process.credentials.euid

/-- The checks of `rename` on the two parents. -/
def renameChecks (oldInode : ℕ) (oldParentCustody newParentCustody : Custody) : KResultOr Unit :=
  if (vfs.inodes oldParentCustody.inode).fs ≠ (vfs.inodes newParentCustody.inode).fs then
    .error .EXDEV
  else if oldInode ∈ newParentCustody.ancestors then .error .EDIRINTOSELF
  else if !(vfs.metadataOf newParentCustody).mayWrite process.credentials then .error .EACCES
  else if !(vfs.metadataOf oldParentCustody).mayWrite process.credentials then .error .EACCES
  else if vfs.stickyForbids process oldParentCustody oldInode then .error .EACCES
  else if oldParentCustody.isReadonly vfs || newParentCustody.isReadonly vfs then .error .EROFS
  else .ok ()

/-- The checks of `rename` on the file that is replaced. -/
def replaceChecks (oldInode newInode : ℕ) (newParentCustody : Custody) : KResultOr Unit :=
  if vfs.stickyForbids process newParentCustody newInode then .error .EACCES
  else if (vfs.inodes newInode).isDirectory && !(vfs.inodes oldInode).isDirectory then
    .error .EISDIR
  else .ok ()

/-- What `rename` does after its checks. -/
inductive RenameAction where
  /-- Both paths lead to the same inode, and nothing is done. -/
  | nothing (inode : ℕ)
  /-- The entry of `inode` is moved, and the new one replaced if there is one. -/
  | move (inode oldParent newParent : ℕ) (oldBasename newBasename : Str) (replaces : Bool)
deriving DecidableEq

/-- The part of `rename` before it changes anything. A parent is a null pointer if a path resolves to
the root. -/
def renameAction (oldPath newPath : Str) (base : Custody) : Option (KResultOr RenameAction) :=
  let old := vfs.resolvePath process oNofollowNoerror oldPath base
  match old.result with
  | .error e => some (.error e)
  | .ok oldCustody =>
    let new := vfs.resolvePath process 0 newPath base
    let move (oldParentCustody newParentCustody : Custody) (replaces : Bool) : RenameAction :=
      .move oldCustody.inode oldParentCustody.inode newParentCustody.inode
        (LexicalPath.basename oldPath) (LexicalPath.basename newPath) replaces
    match new.result, new.outParent, old.outParent with
    | .error e, none, _ => some (.error e)
    | .error e, some newParentCustody, oldParent =>
      if e ≠ .ENOENT then some (.error e)
      else
        match oldParent with
        | none => none
        | some oldParentCustody =>
          match vfs.renameChecks process oldCustody.inode oldParentCustody newParentCustody with
          | .error e => some (.error e)
          | .ok _ => some (.ok (move oldParentCustody newParentCustody false))
    | .ok newCustody, some newParentCustody, some oldParentCustody =>
      match vfs.renameChecks process oldCustody.inode oldParentCustody newParentCustody with
      | .error e => some (.error e)
      | .ok _ =>
        if newCustody.inode = oldCustody.inode then some (.ok (.nothing oldCustody.inode))
        else
          match vfs.replaceChecks process oldCustody.inode newCustody.inode newParentCustody with
          | .error e => some (.error e)
          | .ok _ => some (.ok (move oldParentCustody newParentCustody true))
    | .ok _, _, _ => none

/-- The end of `rename`: the entry that is replaced is removed, the new one added, and the old one
removed. -/
def perform : RenameAction → Outcome Unit
  | .nothing _ => some (.ok (), vfs)
  | .move inode oldParent newParent oldBasename newBasename replaces =>
    Outcome.andThen
      (if replaces then vfs.removeChild newParent newBasename else some (.ok (), vfs))
      fun _ vfs =>
        Outcome.andThen (vfs.addChild newParent inode newBasename) fun _ vfs =>
          vfs.removeChild oldParent oldBasename

/-- `rename`. -/
def rename (oldPath newPath : Str) (base : Custody) : Outcome Unit :=
  match vfs.renameAction process oldPath newPath base with
  | none => none
  | some (.error e) => some (.error e, vfs)
  | some (.ok action) => vfs.perform action

end VFS

/-! ## All operations -/

/-- An operation that adds a directory entry. -/
inductive Operation where
  /-- `open`. -/
  | «open» (path : Str) (options : BitVec 32) (mode : BitVec 16) (base : Custody)
      (owner : Option (ℕ × ℕ)) (description : KResultOr Unit)
  /-- `mkdir`. -/
  | mkdir (path : Str) (mode : BitVec 16) (base : Custody)
  /-- `mknod`. -/
  | mknod (path : Str) (mode : BitVec 16) (dev : ℕ) (base : Custody)
  /-- `symlink`. -/
  | symlink (target linkpath : Str) (base : Custody)
  /-- `link`. -/
  | link (oldPath newPath : Str) (base : Custody)
  /-- `rename`. -/
  | rename (oldPath newPath : Str) (base : Custody)

namespace Operation

/-- Executes an operation. -/
def execute (vfs : VFS) (process : Process) : Operation → Outcome Unit
  | «open» path options mode base owner description =>
    vfs.open process path options mode base owner description
  | mkdir path mode base => vfs.mkdir process path mode base
  | mknod path mode dev base => vfs.mknod process path mode dev base
  | symlink target linkpath base => vfs.symlink process target linkpath base
  | link oldPath newPath base => vfs.link process oldPath newPath base
  | rename oldPath newPath base => vfs.rename process oldPath newPath base

/-- The operation is `open`. -/
def isOpen : Operation → Bool
  | «open» .. => true
  | _ => false

/-- Where an operation adds an entry: the parent that the path resolves to, and the last component of
the path. -/
def place (vfs : VFS) (process : Process) : Operation → Option (Custody × Str)
  | «open» path options _ base _ _ =>
    (vfs.resolvePath process options path base).outParent.map (·, LexicalPath.basename path)
  | mkdir path _ base =>
    (vfs.resolvePath process 0 (trimTrailingSlashes path) base).outParent.map
      (·, LexicalPath.basename (trimTrailingSlashes path))
  | mknod path _ _ base =>
    (vfs.resolvePath process 0 path base).outParent.map (·, LexicalPath.basename path)
  | symlink _ linkpath base =>
    (vfs.resolvePath process 0 linkpath base).outParent.map (·, LexicalPath.basename linkpath)
  | link _ newPath base =>
    (vfs.resolvePath process 0 newPath base).outParent.map (·, LexicalPath.basename newPath)
  | rename _ newPath base =>
    (vfs.resolvePath process 0 newPath base).outParent.map (·, LexicalPath.basename newPath)

end Operation

/-! ## What the operations add -/

namespace VFS

variable {vfs next : VFS} {process : Process} {directory child : ℕ} {name : Str}

variable {path oldPath newPath : Str} {base : Custody} {mode : BitVec 16} {inode : ℕ} {u : Unit}
  {options : BitVec 32} {description : KResultOr Unit}

/-- The parent that a new file gets is the one that the resolution found. -/
theorem outParent_of_parentOfNewPath {parentCustody : Custody}
    (h : vfs.parentOfNewPath process path base = .ok parentCustody) :
    (vfs.resolvePath process 0 path base).outParent = some parentCustody := by
  unfold parentOfNewPath at h
  simp only at h
  split at h
  · cases h
  · split at h
    next => cases h
    next parent hparent =>
      split_ifs at h
      rw [hparent, Except.ok.inj h]

/-- Writing the target of a link changes no entry. -/
theorem entry_of_writeLink {target : Str} (h : vfs.writeLink inode target = some (.ok u, next)) :
    next.entry directory name = vfs.entry directory name := by
  unfold writeLink at h
  split at h
  · simp at h
  · rw [verify_bind_eq_some] at h
    simp only [pure_def, some.injEq, Prod.mk.injEq, true_and] at h
    rw [← h.2]
    by_cases hinode : directory = inode <;> simp [entry, setInode, hinode]

/-- Opening a file that exists changes no entry. -/
theorem entry_of_openExisting {custody : Custody} {result : KResultOr Unit}
    (h : vfs.openExisting process options custody description = some (result, next)) :
    next.entry directory name = vfs.entry directory name := by
  have htruncate : (vfs.setInode custody.inode
      { vfs.inodes custody.inode with content := [] }).entry directory name =
        vfs.entry directory name := by
    by_cases hinode : directory = custody.inode <;> simp [entry, setInode, hinode]
  unfold openExisting at h
  simp only at h
  split_ifs at h <;> obtain ⟨-, rfl⟩ := Prod.mk.inj (some.inj h) <;>
    first | rfl | exact htruncate

/-- A move is to the parent and the last component of the new path. -/
theorem outParent_of_renameAction {oldParent newParent : ℕ} {oldBasename newBasename : Str} {replaces : Bool}
    (h : vfs.renameAction process oldPath newPath base =
      some (.ok (.move inode oldParent newParent oldBasename newBasename replaces))) :
    ∃ parent : Custody, (vfs.resolvePath process 0 newPath base).outParent = some parent ∧
      parent.inode = newParent ∧ newBasename = LexicalPath.basename newPath := by
  unfold renameAction at h
  simp only at h
  split at h
  · simp at h
  · split at h
    next => simp at h
    next parent _ _ hparent =>
      iterate 3 (split at h; · simp at h)
      simp only [some.injEq, Except.ok.injEq, RenameAction.move.injEq] at h
      exact ⟨_, hparent, h.2.2.1, h.2.2.2.2.1.symm⟩
    next parent _ _ hparent _ =>
      iterate 3 (split at h; · simp at h)
      simp only [some.injEq, Except.ok.injEq, RenameAction.move.injEq] at h
      exact ⟨_, hparent, h.2.2.1, h.2.2.2.2.1.symm⟩
    next => simp at h

/-! The entry `name` of `directory` is new. -/

section Adds

variable (hentry : next.entry directory name = some child)
  (hnew : vfs.entry directory name ≠ some child)

include hentry hnew

/-- A new file is added in its parent. -/
theorem createInParent_adds {basename : Str} {dev uid gid : ℕ}
    (h : vfs.createInParent (vfs.parentOfNewPath process path base) basename mode dev uid gid =
      some (.ok inode, next)) :
    ∃ parent : Custody, (vfs.resolvePath process 0 path base).outParent.map (·, basename) =
      some (parent, name) ∧ parent.inode = directory := by
  unfold createInParent at h
  split at h
  next => simp at h
  next parentCustody hparent =>
    obtain ⟨rfl, rfl⟩ := (entry_of_createChild h hentry).resolve_right hnew
    exact ⟨parentCustody, by rw [outParent_of_parentOfNewPath hparent, map_some], rfl⟩

/-- The file that `open` creates passed the check of the veil. -/
theorem create_adds {parentCustody : Custody} {owner : Option (ℕ × ℕ)}
    (h : vfs.create process path options mode parentCustody owner description =
      some (.ok u, next)) :
    name = LexicalPath.basename path ∧ parentCustody.inode = directory ∧
      process.validatePathAgainstProcessVeil (parentCustody.absolutePath ++ '/' :: name) options =
        .ok () := by
  unfold create at h
  simp only at h
  split at h
  next => simp at h
  next hveil =>
    split at h
    · simp at h
    · split at h
      · simp at h
      · obtain ⟨inode, created, hcreate, hrest⟩ := Outcome.andThen_eq_ok.mp h
        obtain ⟨-, rfl⟩ := Prod.mk.inj (some.inj hrest)
        obtain ⟨rfl, rfl⟩ := (entry_of_createChild hcreate hentry).resolve_right hnew
        exact ⟨rfl, rfl, hveil⟩

/-- The file that `open` adds passed the check of the veil, with `O_CREAT`. -/
theorem open_adds {owner : Option (ℕ × ℕ)}
    (h : vfs.open process path options mode base owner description = some (.ok u, next)) :
    ∃ parent : Custody,
      (vfs.resolvePath process options path base).outParent.map (·, LexicalPath.basename path) =
        some (parent, name) ∧ parent.inode = directory ∧ hasAnyBit options oCreat = true ∧
      process.validatePathAgainstProcessVeil (parent.absolutePath ++ '/' :: name) options =
        .ok () := by
  unfold «open» at h
  split at h
  · simp at h
  · simp only at h
    split at h
    next hcreat =>
      split at h
      next => simp at h
      next parent hparent =>
        split at h
        · split at h
          · simp at h
          · obtain ⟨rfl, hinode, hveil⟩ := create_adds hentry hnew h
            exact ⟨parent, by rw [hparent, map_some], hinode, hcreat, hveil⟩
        · split at h
          · simp at h
          · exact absurd ((entry_of_openExisting h).symm.trans hentry) hnew
    next =>
      split at h
      · simp at h
      · exact absurd ((entry_of_openExisting h).symm.trans hentry) hnew

/-- `link` adds its entry in the parent of the new path. -/
theorem link_adds (h : vfs.link process oldPath newPath base = some (.ok u, next)) :
    ∃ parent : Custody,
      (vfs.resolvePath process 0 newPath base).outParent.map (·, LexicalPath.basename newPath) =
        some (parent, name) ∧ parent.inode = directory := by
  unfold link at h
  simp only at h
  split at h
  · simp at h
  · split at h
    next => simp at h
    next => simp at h
    next parent _ hparent =>
      split at h
      · simp at h
      · rw [entry_of_addChild h] at hentry
        split at hentry
        next hplace => exact ⟨parent, by rw [hparent, map_some, hplace.2], hplace.1.symm⟩
        next => exact absurd hentry hnew

/-- Moving an entry adds the new one only. -/
theorem perform_adds {action : RenameAction} (h : vfs.perform action = some (.ok u, next)) :
    ∃ inode oldParent oldBasename replaces,
      action = .move inode oldParent directory oldBasename name replaces := by
  cases action with
  | nothing inode =>
    obtain ⟨-, rfl⟩ := Prod.mk.inj (some.inj h)
    exact absurd hentry hnew
  | move inode oldParent newParent oldBasename newBasename replaces =>
    obtain ⟨_, removed, hremove, h⟩ := Outcome.andThen_eq_ok.mp h
    obtain ⟨_, added, hadd, h⟩ := Outcome.andThen_eq_ok.mp h
    have hold : removed.entry directory name ≠ some child := by
      split at hremove
      · exact fun hold => hnew (entry_of_entry_removeChild hremove hold)
      · obtain ⟨-, rfl⟩ := Prod.mk.inj (some.inj hremove)
        exact hnew
    have hadded := entry_of_entry_removeChild h hentry
    rw [entry_of_addChild hadd] at hadded
    split at hadded
    next hplace => exact ⟨inode, oldParent, oldBasename, replaces, by rw [hplace.1, hplace.2]⟩
    next => exact absurd hadded hold

/-- `rename` adds its entry in the parent of the new path. -/
theorem rename_adds (h : vfs.rename process oldPath newPath base = some (.ok u, next)) :
    ∃ parent : Custody,
      (vfs.resolvePath process 0 newPath base).outParent.map (·, LexicalPath.basename newPath) =
        some (parent, name) ∧ parent.inode = directory := by
  unfold rename at h
  split at h
  next => simp at h
  next => simp at h
  next action haction =>
    obtain ⟨inode, oldParent, oldBasename, replaces, rfl⟩ := perform_adds hentry hnew h
    obtain ⟨parent, hparent, hinode, hname⟩ := outParent_of_renameAction haction
    exact ⟨parent, by rw [hparent, map_some, hname], hinode⟩

end Adds

end VFS

/-- An operation that succeeds adds entries only at its place. -/
theorem Operation.execute_adds {vfs next : VFS} {process : Process} {op : Operation} {u : Unit}
    {directory child : ℕ} {name : Str} (h : op.execute vfs process = some (.ok u, next))
    (hentry : next.entry directory name = some child)
    (hnew : vfs.entry directory name ≠ some child) :
    ∃ parent, op.place vfs process = some (parent, name) ∧ parent.inode = directory := by
  cases op with
  | «open» path options mode base owner description =>
    obtain ⟨parent, hplace, hinode, -⟩ := VFS.open_adds hentry hnew h
    exact ⟨parent, hplace, hinode⟩
  | mkdir path mode base =>
    obtain ⟨inode, created, hcreate, hrest⟩ := Outcome.andThen_eq_ok.mp h
    obtain ⟨-, rfl⟩ := Prod.mk.inj (some.inj hrest)
    exact VFS.createInParent_adds hentry hnew hcreate
  | mknod path mode dev base =>
    simp only [execute, VFS.mknod] at h
    split at h
    · simp at h
    · obtain ⟨inode, created, hcreate, hrest⟩ := Outcome.andThen_eq_ok.mp h
      obtain ⟨-, rfl⟩ := Prod.mk.inj (some.inj hrest)
      exact VFS.createInParent_adds hentry hnew hcreate
  | symlink target linkpath base =>
    obtain ⟨inode, created, hcreate, hwrite⟩ := Outcome.andThen_eq_ok.mp h
    rw [VFS.entry_of_writeLink hwrite] at hentry
    exact VFS.createInParent_adds hentry hnew hcreate
  | link oldPath newPath base => exact VFS.link_adds hentry hnew h
  | rename oldPath newPath base => exact VFS.rename_adds hentry hnew h

end Kernel
