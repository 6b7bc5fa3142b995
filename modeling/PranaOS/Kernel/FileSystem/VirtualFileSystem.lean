import PranaOS.Kernel.FileSystem.Inode
import PranaOS.Kernel.UnveilNode

/-!
# `Kernel/FileSystem/VirtualFileSystem.cpp`: the veil and the resolution of paths

A path is resolved component by component from the root directory of the process or from a base.
Where a symbolic link is met, its content is resolved one recursion level deeper, and then the rest of
the path from there.

The out-parameter `out_parent` of the source is a variable of the caller, which starts as null: a
resolution gets its value and returns its value, also with an error.
-/

namespace Kernel

open AK

/-! ## Options -/

/-- `O_RDONLY`. -/
def oRdonly : BitVec 32 := 1 <<< 0
/-- `O_WRONLY`. -/
def oWronly : BitVec 32 := 1 <<< 1
/-- `O_EXEC`. -/
def oExec : BitVec 32 := 1 <<< 2
/-- `O_CREAT`. -/
def oCreat : BitVec 32 := 1 <<< 3
/-- `O_EXCL`. -/
def oExcl : BitVec 32 := 1 <<< 4
/-- `O_TRUNC`. -/
def oTrunc : BitVec 32 := 1 <<< 6
/-- `O_DIRECTORY`. -/
def oDirectory : BitVec 32 := 1 <<< 9
/-- `O_NOFOLLOW`. -/
def oNofollow : BitVec 32 := 1 <<< 10
/-- `O_NOFOLLOW_NOERROR`. -/
def oNofollowNoerror : BitVec 32 := 1 <<< 29
/-- `O_UNLINK_INTERNAL`. -/
def oUnlinkInternal : BitVec 32 := 1 <<< 30

/-- A word has one of the bits of a mask. -/
def hasAnyBit (word flag : BitVec 32) : Bool := word &&& flag ≠ 0

/-! ## The veil -/

/-- What the virtual file system reads of the process that calls it. -/
structure Process where
  /-- The user and the groups. -/
  credentials : Credentials
  /-- `root_directory`. -/
  rootDirectory : Custody
  /-- `m_veil_state`. -/
  veilState : VeilState := .none
  /-- `m_unveiled_paths`. -/
  unveiledPaths : UnveilNode := UnveilNode.initial

namespace Process

/-- `find_matching_unveiled_path`. -/
def findMatchingUnveiledPath (process : Process) (path : Str) : Option UnveilNode :=
  if process.unveiledPaths.isEmpty then none
  else some (process.unveiledPaths.traverseUntilLastAccessibleNode (LexicalPath.parts path)).1

/-- The path of the dynamic loader, which no veil hides. -/
def loaderPath : Str :=
  ['/', 'u', 's', 'r', '/', 'l', 'i', 'b', '/', 'L', 'o', 'a', 'd', 'e', 'r', '.', 's', 'o']

/-- `validate_path_against_process_veil`. -/
def validatePathAgainstProcessVeil (process : Process) (path : Str) (options : BitVec 32) :
    KResultOr Unit :=
  if process.veilState = .none then .ok ()
  else if path = loaderPath then .ok ()
  else if ['/', '.', '.'] <:+: path then .error .EINVAL
  else
    match process.findMatchingUnveiledPath path with
    | none => .error .ENOENT
    | some unveiledPath =>
      let may (access : BitVec 32) : Bool := hasAnyBit unveiledPath.permissions access
      if hasAnyBit options oCreat && !may UnveilAccess.createOrRemove then .error .EACCES
      else if hasAnyBit options oUnlinkInternal then
        -- the other options are not looked at
        if may UnveilAccess.createOrRemove then .ok () else .error .EACCES
      else if hasAnyBit options oRdonly && hasAnyBit options oDirectory &&
          !may (UnveilAccess.read ||| UnveilAccess.browse) then .error .EACCES
      else if hasAnyBit options oRdonly && !hasAnyBit options oDirectory && !may UnveilAccess.read then
        .error .EACCES
      else if hasAnyBit options oWronly && !may UnveilAccess.write then .error .EACCES
      else if hasAnyBit options oExec && !may UnveilAccess.execute then .error .EACCES
      else .ok ()

end Process

/-! ## Resolution -/

/-- `symlink_recursion_limit`. -/
def symlinkRecursionLimit : ℕ := 5

/-- What a resolution returns, and the value of `*out_parent` after it. -/
structure Resolution where
  /-- The custody or the error that is returned. -/
  result : KResultOr Custody
  /-- `*out_parent`. -/
  outParent : Option Custody
deriving DecidableEq

namespace VFS

variable (vfs : VFS) (process : Process) (options : BitVec 32)

/-- `find_mount_for_host`. -/
def findMountForHost (inode : ℕ) : Option Mount := vfs.mounts.find? fun mount => mount.host = some inode

/-- The custody of a child: the guest inode and its flags if something is mounted on the child. -/
def childCustody (parent : Custody) (part : Str) (childInode : ℕ) : Custody :=
  match vfs.findMountForHost childInode with
  | some mount => .child parent part mount.guest mount.flags
  | none => .child parent part childInode parent.mountFlags

/-- `safe_to_follow_symlink`. -/
def safeToFollowSymlink (inode : ℕ) (parentMetadata : InodeMetadata) : Bool :=
  let metadata := (vfs.inodes inode).metadata
  process.credentials.euid = metadata.uid ||
    !(isSticky parentMetadata.mode && parentMetadata.mode &&& sIwoth ≠ 0) ||
    metadata.uid = parentMetadata.uid

/-- What `resolve_path` adds to `resolve_path_without_veil`: only a path that was resolved is held
against the veil. -/
def validateResolution (resolution : Resolution) : Resolution :=
  match resolution.result with
  | .error _ => resolution
  | .ok custody =>
    match process.validatePathAgainstProcessVeil custody.absolutePath options with
    | .error e => ⟨.error e, resolution.outParent⟩
    | .ok _ => resolution

/-- The path that is resolved from the target of a link: a dot, and what follows the link. -/
def remainingPath (rest : List Str) : Str := '.' :: rest.flatMap fun part => '/' :: part

/-- The loop of `resolve_path_without_veil`. The resolutions at the next recursion level are given by
`resolveDeeper`. -/
def resolveLoop (resolveDeeper : Str → Custody → Option Custody → Resolution) :
    Custody → List Str → Option Custody → Resolution
  | custody, [], _ => ⟨.ok custody, custody.parent⟩
  | parent, part :: rest, outParent =>
    let parentMetadata := (vfs.inodes parent.inode).metadata
    if !isDirectory parentMetadata.mode then ⟨.error .ENOTDIR, outParent⟩
    else if !parentMetadata.mayExecute process.credentials then ⟨.error .EACCES, outParent⟩
    else if part = LexicalPath.dotDot then
      resolveLoop resolveDeeper (parent.parent.getD parent) rest outParent
    else if part = LexicalPath.dot ∨ part = [] then
      resolveLoop resolveDeeper parent rest outParent
    else
      match vfs.lookup parent.inode part with
      | none => ⟨.error .ENOENT, if rest = [] then some parent else none⟩
      | some childInode =>
        let custody := vfs.childCustody parent part childInode
        if isSymlink (vfs.inodes custody.inode).metadata.mode then
          if rest = [] ∧ hasAnyBit options oNofollow then ⟨.error .ELOOP, outParent⟩
          else if rest = [] ∧ hasAnyBit options oNofollowNoerror then ⟨.ok custody, custody.parent⟩
          else if !vfs.safeToFollowSymlink process custody.inode parentMetadata then
            ⟨.error .EACCES, outParent⟩
          else
            match process.validatePathAgainstProcessVeil custody.absolutePath options with
            | .error e => ⟨.error e, outParent⟩
            | .ok _ =>
              -- `resolve_as_link`
              let target := validateResolution process options
                (resolveDeeper (vfs.inodes custody.inode).content parent outParent)
              match target.result with
              | .error _ => target
              | .ok targetCustody =>
                if rest = [] then target
                else resolveDeeper (remainingPath rest) targetCustody target.outParent
        else resolveLoop resolveDeeper custody rest outParent

/-- `resolve_path_without_veil`, with the number of recursion levels that are left. -/
def resolvePathLevels : ℕ → Str → Custody → Option Custody → Resolution
  | 0, _, _, outParent => ⟨.error .ELOOP, outParent⟩
  | levels + 1, path, base, outParent =>
    if path = [] then ⟨.error .EINVAL, outParent⟩
    else
      vfs.resolveLoop process options (resolvePathLevels levels)
        (if path.head? = some '/' then process.rootDirectory else base)
        (splitView path '/' true) outParent

/-- `resolve_path_without_veil`, as it is first called. -/
def resolvePathWithoutVeil (path : Str) (base : Custody) : Resolution :=
  vfs.resolvePathLevels process options symlinkRecursionLimit path base none

/-- `resolve_path`, as it is first called. -/
def resolvePath (path : Str) (base : Custody) : Resolution :=
  validateResolution process options (vfs.resolvePathWithoutVeil process options path base)

end VFS

end Kernel
