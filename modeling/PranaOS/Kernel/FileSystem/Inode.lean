import PranaOS.AK.Assertions
import PranaOS.AK.HashMap
import PranaOS.AK.LexicalPath
import PranaOS.Kernel.KResult

/-!
# Inodes, and the chains of custody that lead to them

An inode is named by a number, which stands for its address. Directories are those of `TmpFS.cpp`,
on any number of file systems that may be mounted on each other. A function is `none` where a
`VERIFY` fails.

Times, sizes and link counts, the registration of inodes with their file system and the watchers of
directories are left out: no decision of the virtual file system depends on them.
-/

namespace Kernel

open AK Option

/-! ## Modes -/

/-- `S_IFMT`. -/
def sIfmt : BitVec 16 := 0o170000
/-- `S_IFDIR`. -/
def sIfdir : BitVec 16 := 0o040000
/-- `S_IFCHR`. -/
def sIfchr : BitVec 16 := 0o020000
/-- `S_IFBLK`. -/
def sIfblk : BitVec 16 := 0o060000
/-- `S_IFREG`. -/
def sIfreg : BitVec 16 := 0o100000
/-- `S_IFIFO`. -/
def sIfifo : BitVec 16 := 0o010000
/-- `S_IFLNK`. -/
def sIflnk : BitVec 16 := 0o120000
/-- `S_IFSOCK`. -/
def sIfsock : BitVec 16 := 0o140000
/-- `S_ISUID`. -/
def sIsuid : BitVec 16 := 0o4000
/-- `S_ISGID`. -/
def sIsgid : BitVec 16 := 0o2000
/-- `S_ISVTX`. -/
def sIsvtx : BitVec 16 := 0o1000
/-- `S_IRUSR`. -/
def sIrusr : BitVec 16 := 0o0400
/-- `S_IWUSR`. -/
def sIwusr : BitVec 16 := 0o0200
/-- `S_IXUSR`. -/
def sIxusr : BitVec 16 := 0o0100
/-- `S_IRGRP`. -/
def sIrgrp : BitVec 16 := 0o0040
/-- `S_IWGRP`. -/
def sIwgrp : BitVec 16 := 0o0020
/-- `S_IXGRP`. -/
def sIxgrp : BitVec 16 := 0o0010
/-- `S_IROTH`. -/
def sIroth : BitVec 16 := 0o0004
/-- `S_IWOTH`. -/
def sIwoth : BitVec 16 := 0o0002
/-- `S_IXOTH`. -/
def sIxoth : BitVec 16 := 0o0001

variable (mode : BitVec 16)

/-- `is_directory`. -/
def isDirectory : Bool := mode &&& sIfmt = sIfdir
/-- `is_character_device`. -/
def isCharacterDevice : Bool := mode &&& sIfmt = sIfchr
/-- `is_block_device`. -/
def isBlockDevice : Bool := mode &&& sIfmt = sIfblk
/-- `is_regular_file`. -/
def isRegularFile : Bool := mode &&& sIfmt = sIfreg
/-- `is_fifo`. -/
def isFifo : Bool := mode &&& sIfmt = sIfifo
/-- `is_symlink`. -/
def isSymlink : Bool := mode &&& sIfmt = sIflnk
/-- `is_socket`. -/
def isSocket : Bool := mode &&& sIfmt = sIfsock
/-- `is_sticky`. -/
def isSticky : Bool := mode &&& sIsvtx ≠ 0
/-- `is_setuid`. -/
def isSetuid : Bool := mode &&& sIsuid ≠ 0
/-- `is_setgid`. -/
def isSetgid : Bool := mode &&& sIsgid ≠ 0

/-- The user and the groups of a process. -/
structure Credentials where
  /-- `euid`. -/
  euid : ℕ
  /-- `egid`. -/
  egid : ℕ
  /-- `extra_gids`. -/
  extraGids : List ℕ := []
deriving DecidableEq, Repr

/-- `is_superuser`. -/
def Credentials.isSuperuser (self : Credentials) : Bool := self.euid = 0

/-- `InodeMetadata`. -/
structure InodeMetadata where
  /-- `mode`. -/
  mode : BitVec 16
  /-- `uid`. -/
  uid : ℕ
  /-- `gid`. -/
  gid : ℕ
deriving DecidableEq, Repr

namespace InodeMetadata

variable (self : InodeMetadata)

/-- What `may_read`, `may_write` and `may_execute` share: the bit for the owner, the group or the others. -/
def may (process : Credentials) (user group others : BitVec 16) : Bool :=
  if process.euid = 0 then true
  else if self.uid = process.euid then self.mode &&& user ≠ 0
  else if self.gid = process.egid ∨ self.gid ∈ process.extraGids then self.mode &&& group ≠ 0
  else self.mode &&& others ≠ 0

/-- `may_read`. -/
def mayRead (process : Credentials) : Bool :=
  self.may process sIrusr sIrgrp sIroth

/-- `may_write`. -/
def mayWrite (process : Credentials) : Bool :=
  self.may process sIwusr sIwgrp sIwoth

/-- `may_execute`. -/
def mayExecute (process : Credentials) : Bool :=
  self.may process sIxusr sIxgrp sIxoth

end InodeMetadata

/-! ## Inodes -/

/-- `NAME_MAX`. -/
def nameMax : ℕ := 255

/-- `TmpFSInode`. -/
structure Inode where
  /-- `m_fs`. -/
  fs : ℕ
  /-- `m_metadata`. -/
  metadata : InodeMetadata
  /-- `m_children`. -/
  children : HashMap Str ℕ := []
  /-- `m_content`. -/
  content : Str := []

/-- `is_directory`. -/
def Inode.isDirectory (self : Inode) : Bool := Kernel.isDirectory self.metadata.mode

/-- `VFS::Mount`. -/
structure Mount where
  /-- `host`. -/
  host : Option ℕ
  /-- `guest`. -/
  guest : ℕ
  /-- `flags`. -/
  flags : BitVec 32
deriving DecidableEq, Repr

/-- The file systems and what is mounted where. -/
structure VFS where
  /-- The inodes. -/
  inodes : ℕ → Inode
  /-- The number of the next inode that is created. -/
  nextInode : ℕ
  /-- `is_readonly`, for each file system. -/
  readonly : ℕ → Bool
  /-- `m_mounts`. -/
  mounts : List Mount

namespace VFS

variable (self : VFS)

/-- The entry of a directory under a name. -/
def entry (directory : ℕ) (name : Str) : Option ℕ :=
  HashMap.find (self.inodes directory).children name

/-- Replaces an inode. -/
def setInode (inode : ℕ) (value : Inode) : VFS :=
  { self with inodes := Function.update self.inodes inode value }

/-- Replaces the entries of a directory. -/
def setChildren (directory : ℕ) (children : HashMap Str ℕ) : VFS :=
  self.setInode directory { self.inodes directory with children := children }

/-- `lookup`. -/
def lookup (directory : ℕ) (name : Str) : Option ℕ := self.entry directory name

/-- `add_child`. -/
def addChild (directory child : ℕ) (name : Str) :
    Option (KResultOr Unit × VFS) := do
  verify (self.inodes directory).isDirectory
  verify ((self.inodes child).fs = (self.inodes directory).fs)
  if name.length > nameMax then return (.error .ENAMETOOLONG, self)
  return (.ok (),
    self.setChildren directory (HashMap.set (self.inodes directory).children name child))

/-- `remove_child`. -/
def removeChild (directory : ℕ) (name : Str) : Option (KResultOr Unit × VFS) := do
  verify (self.inodes directory).isDirectory
  if name = LexicalPath.dot ∨ name = LexicalPath.dotDot then return (.ok (), self)
  match self.entry directory name with
  | none => return (.error .ENOENT, self)
  | some _ =>
    return (.ok (),
      self.setChildren directory (HashMap.remove (self.inodes directory).children name))

/-- `create_child`. The inode that is created belongs to the file system of the directory. -/
def createChild (directory : ℕ) (name : Str) (mode : BitVec 16) (dev uid gid : ℕ) :
    Option (KResultOr ℕ × VFS) := do
  -- devices are not supported
  if dev ≠ 0 then return (.error .ENOTSUP, self)
  let child := self.nextInode
  let created := { self.setInode child
    { fs := (self.inodes directory).fs, metadata := ⟨mode, uid, gid⟩ } with
    nextInode := self.nextInode + 1 }
  let (result, added) ← created.addChild directory child name
  return (result.map fun _ => child, added)

/-! ### The entries after these operations -/

section Entries

variable {self next : VFS} {directory directory' child child' : ℕ} {name name' : Str}

theorem entry_setChildren (children : HashMap Str ℕ) :
    (self.setChildren directory children).entry directory' name =
      if directory' = directory then HashMap.find children name else self.entry directory' name := by
  unfold entry setChildren setInode
  by_cases h : directory' = directory
  · subst h
    simp
  · simp [h]

/-- `add_child` either refuses, or sets one entry. -/
theorem addChild_eq_ok {u : Unit} (h : self.addChild directory child name = some (.ok u, next)) :
    (self.inodes directory).isDirectory = true ∧
      (self.inodes child).fs = (self.inodes directory).fs ∧ name.length ≤ nameMax ∧
      next = self.setChildren directory
        (HashMap.set (self.inodes directory).children name child) := by
  unfold addChild at h
  rw [verify_bind_eq_some, verify_bind_eq_some] at h
  obtain ⟨hdirectory, hfs, h⟩ := h
  split at h
  next => simp at h
  next hlength =>
    simp only [pure_def, some.injEq, Prod.mk.injEq] at h
    exact ⟨by simpa using hdirectory, by simpa using hfs, not_lt.mp hlength, h.2.symm⟩

/-- The entries after an addition. -/
theorem entry_of_addChild {u : Unit} (h : self.addChild directory child name = some (.ok u, next)) :
    next.entry directory' name' =
      if directory' = directory ∧ name = name' then some child else self.entry directory' name' := by
  obtain ⟨-, -, -, rfl⟩ := addChild_eq_ok h
  rw [entry_setChildren, HashMap.find_set]
  by_cases hd : directory' = directory
  · subst hd
    simp [entry]
  · simp [hd]

/-- The entries after a removal: a name that is `.` or `..` is left alone. -/
theorem entry_of_removeChild {u : Unit} (h : self.removeChild directory name = some (.ok u, next)) :
    next.entry directory' name' =
      if directory' = directory ∧ name = name' ∧ name ≠ LexicalPath.dot ∧
        name ≠ LexicalPath.dotDot then none
      else self.entry directory' name' := by
  unfold removeChild at h
  rw [verify_bind_eq_some] at h
  obtain ⟨-, h⟩ := h
  split at h
  next hdot =>
    simp only [pure_def, some.injEq, Prod.mk.injEq, true_and] at h
    rw [h, if_neg]
    rintro ⟨-, -, hne⟩
    exact hdot.elim hne.1 hne.2
  next hdot =>
    rw [not_or] at hdot
    split at h
    · simp at h
    · simp only [pure_def, some.injEq, Prod.mk.injEq, true_and] at h
      rw [← h, entry_setChildren, HashMap.find_remove]
      by_cases hd : directory' = directory
      · subst hd
        simp [entry, hdot]
      · simp [hd]

/-- A removal adds no entry. -/
theorem entry_of_entry_removeChild {u : Unit}
    (h : self.removeChild directory name = some (.ok u, next))
    (hentry : next.entry directory' name' = some child') :
    self.entry directory' name' = some child' := by
  rw [entry_of_removeChild h] at hentry
  split at hentry
  · cases hentry
  · exact hentry

/-- A creation adds its own entry only. -/
theorem entry_of_createChild {mode : BitVec 16} {dev uid gid : ℕ}
    (h : self.createChild directory name mode dev uid gid = some (.ok child, next))
    (hentry : next.entry directory' name' = some child') :
    (directory' = directory ∧ name = name') ∨ self.entry directory' name' = some child' := by
  unfold createChild at h
  split at h
  · simp at h
  · simp only [bind_eq_bind, bind_eq_some_iff] at h
    obtain ⟨⟨result, added⟩, hadd, h⟩ := h
    simp only [pure_def, some.injEq, Prod.mk.injEq] at h
    obtain ⟨hresult, rfl⟩ := h
    cases result with
    | error e => cases hresult
    | ok u =>
      rw [entry_of_addChild hadd] at hentry
      split at hentry
      next hplace => exact .inl hplace
      next =>
        -- the new inode has no entries
        right
        by_cases hnew : directory' = self.nextInode
        · simp [entry, setInode, hnew] at hentry
        · simpa [entry, setInode, hnew] using hentry

/-- A directory accepts every child of its file system, under a name that is not too long. -/
theorem addChild_eq_some (hdirectory : (self.inodes directory).isDirectory = true)
    (hfs : (self.inodes child).fs = (self.inodes directory).fs) (hlength : name.length ≤ nameMax) :
    self.addChild directory child name = some (.ok (), self.setChildren directory
      (HashMap.set (self.inodes directory).children name child)) := by
  simp [addChild, verify, hdirectory, hfs, not_lt.mpr hlength]

/-- A directory accepts every new file under a name that is not too long. -/
theorem exists_createChild (mode : BitVec 16) (uid gid : ℕ)
    (hdirectory : (self.inodes directory).isDirectory = true) (hne : directory ≠ self.nextInode)
    (hlength : name.length ≤ nameMax) :
    ∃ next, self.createChild directory name mode 0 uid gid = some (.ok self.nextInode, next) ∧
      next.entry directory name = some self.nextInode := by
  set created : VFS := { self.setInode self.nextInode
    { fs := (self.inodes directory).fs, metadata := ⟨mode, uid, gid⟩ } with
    nextInode := self.nextInode + 1 } with hcreated
  have hsame : created.inodes directory = self.inodes directory := by
    simp [hcreated, setInode, hne]
  have hadd : created.addChild directory self.nextInode name = some (.ok (), _) :=
    addChild_eq_some (hsame ▸ hdirectory) (by simp [hcreated, setInode, hne]) hlength
  refine ⟨_, ?_, (entry_of_addChild hadd).trans (if_pos ⟨rfl, rfl⟩)⟩
  rw [createChild, if_neg (by simp)]
  simp only [← hcreated, hadd]
  rfl

end Entries

end VFS

/-! ## Custody -/

/-- `MS_RDONLY`. -/
def msRdonly : BitVec 32 := 1 <<< 4

/-- `Custody`: an inode, and the directories on the way to it. -/
inductive Custody where
  /-- A custody without a parent. -/
  | root (inode : ℕ) (mountFlags : BitVec 32)
  /-- A custody with a parent and a name. -/
  | child (parent : Custody) (name : Str) (inode : ℕ) (mountFlags : BitVec 32)
deriving DecidableEq, Repr

namespace Custody

/-- `inode`. -/
def inode : Custody → ℕ
  | root inode _ => inode
  | child _ _ inode _ => inode

/-- `mount_flags`. -/
def mountFlags : Custody → BitVec 32
  | root _ mountFlags => mountFlags
  | child _ _ _ mountFlags => mountFlags

/-- `parent`. -/
def parent : Custody → Option Custody
  | root _ _ => none
  | child parent _ _ _ => some parent

/-- The names on the way to a custody. -/
def components : Custody → List Str
  | root _ _ => []
  | child parent name _ _ => parent.components ++ [name]

/-- `absolute_path`. -/
def absolutePath (self : Custody) : Str := LexicalPath.absolutePath self.components

/-- `is_readonly`. -/
def isReadonly (self : Custody) (vfs : VFS) : Bool :=
  self.mountFlags &&& msRdonly ≠ 0 || vfs.readonly (vfs.inodes self.inode).fs

/-- The inodes of a custody and of its ancestors, as the loop of `rename` visits them. -/
def ancestors : Custody → List ℕ
  | root inode _ => [inode]
  | child parent _ inode _ => inode :: parent.ancestors

end Custody

end Kernel
