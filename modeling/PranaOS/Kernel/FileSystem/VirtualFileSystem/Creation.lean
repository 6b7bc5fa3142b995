import PranaOS.Kernel.FileSystem.VirtualFileSystem.Operations

/-!
# The veil and the creation of files

A process with a veil should be able to add a directory entry only at a path whose deepest unveiled
prefix has the create permission. `open` holds the path of a file that it creates against the veil.
The other operations do not: `resolve_path` looks at the veil after a path was resolved, and the path
of a new file cannot be resolved.

`veilSafe_iff` says for which paths the veil works: with the create permission it does, and without
it `open` still does, except for the path of the dynamic loader.
-/

namespace Kernel

open AK Option

namespace Process

/-- The deepest unveiled prefix of a path has the create permission. -/
def createPermitted (process : Process) (path : List Str) : Bool :=
  match process.findMatchingUnveiledPath (LexicalPath.absolutePath path) with
  | none => false
  | some node => hasAnyBit (UnveilNode.permissions node) UnveilAccess.createOrRemove

/-- The components of `loaderPath`. -/
def loaderComponents : List Str :=
  [['u', 's', 'r'], ['l', 'i', 'b'], ['L', 'o', 'a', 'd', 'e', 'r', '.', 's', 'o']]

variable {process : Process}

/-- A path that passes the check for `O_CREAT` has the create permission, or is that of the
loader. -/
theorem hasAnyBit_of_validate {path : Str} {options : BitVec 32} {u : Unit}
    (hveil : process.veilState ≠ .none) (hcreat : hasAnyBit options oCreat = true)
    (hloader : path ≠ loaderPath)
    (h : process.validatePathAgainstProcessVeil path options = .ok u) :
    ∃ node, process.findMatchingUnveiledPath path = some node ∧
      hasAnyBit (UnveilNode.permissions node) UnveilAccess.createOrRemove = true := by
  unfold validatePathAgainstProcessVeil at h
  rw [if_neg hveil, if_neg hloader] at h
  split at h
  · cases h
  · split at h
    next => cases h
    next node hnode =>
      refine ⟨node, hnode, ?_⟩
      by_contra hpermission
      rw [Bool.not_eq_true] at hpermission
      simp [hcreat, hpermission] at h

/-- What `create` checks is the path of the new entry. -/
theorem createPermitted_of_validate {parent : Custody} {name : Str} {options : BitVec 32} {u : Unit}
    (hveil : process.veilState ≠ .none) (hcreat : hasAnyBit options oCreat = true)
    (hproper : ∀ part ∈ parent.components ++ [name], LexicalPath.Proper part)
    (hloader : parent.components ++ [name] ≠ loaderComponents)
    (h : process.validatePathAgainstProcessVeil (parent.absolutePath ++ '/' :: name) options =
      .ok u) :
    process.createPermitted (parent.components ++ [name]) = true := by
  have hparts : LexicalPath.parts (parent.absolutePath ++ '/' :: name) =
      parent.components ++ [name] := LexicalPath.parts_absolutePath_append hproper
  have hne : parent.absolutePath ++ '/' :: name ≠ loaderPath := by
    intro heq
    have hloaderParts : LexicalPath.parts loaderPath = loaderComponents := by decide +kernel
    exact hloader (by rw [← hparts, heq, hloaderParts])
  obtain ⟨node, hnode, hpermission⟩ := hasAnyBit_of_validate hveil hcreat hne h
  -- both strings have the same components, and only these are looked at
  have hsame : process.findMatchingUnveiledPath
      (LexicalPath.absolutePath (parent.components ++ [name])) = some node := by
    rw [← hnode]
    unfold findMatchingUnveiledPath
    rw [LexicalPath.parts_absolutePath hproper, hparts]
  simpa [createPermitted, hsame] using hpermission

/-- Whatever file systems there are: an operation (`open`, or one of the others) that succeeds adds
entries only at its place, and only with the create permission if that place is at `path`. -/
def VeilSafe (process : Process) (isOpen : Bool) (path : List Str) : Prop :=
  ∀ (vfs next : VFS) (op : Operation) (directory child : ℕ) (name : Str), op.isOpen = isOpen →
    op.execute vfs process = some (.ok (), next) →
    next.entry directory name = some child → vfs.entry directory name ≠ some child →
    ∃ parent, op.place vfs process = some (parent, name) ∧ parent.inode = directory ∧
      (parent.components ++ [name] = path → process.createPermitted path = true)

/-! ## A file that is created anywhere -/

/-- A file system with one directory, which is empty and open to everyone. -/
def openDirectory : VFS where
  inodes _ := { fs := 0, metadata := ⟨sIfdir ||| 0o777, 0, 0⟩ }
  nextInode := 1
  readonly _ := false
  mounts := []

variable (path : List Str)

/-- The custody of this directory at some path. -/
def custodyAt : Custody :=
  path.foldl (fun parent name => .child parent name 0 0) (.root 0 0)

theorem custodyAt_append (name : Str) :
    custodyAt (path ++ [name]) = .child (custodyAt path) name 0 0 := by
  simp [custodyAt]

theorem components_custodyAt : (custodyAt path).components = path := by
  induction path using List.reverseRecOn with
  | nil => rfl
  | append_singleton path name ih => rw [custodyAt_append, Custody.components, ih]

theorem inode_custodyAt : (custodyAt path).inode = 0 := by
  rcases List.eq_nil_or_concat' path with rfl | ⟨path, name, rfl⟩
  · rfl
  · rw [custodyAt_append]
    rfl

theorem mountFlags_custodyAt : (custodyAt path).mountFlags = 0 := by
  rcases List.eq_nil_or_concat' path with rfl | ⟨path, name, rfl⟩
  · rfl
  · rw [custodyAt_append]
    rfl

theorem isReadonly_custodyAt :
    (custodyAt path).isReadonly openDirectory = false := by
  simp [Custody.isReadonly, mountFlags_custodyAt, openDirectory]

/-- Everyone may do everything in the directory. -/
theorem may_openDirectory (credentials : Credentials) (inode : ℕ) :
    (openDirectory.inodes inode).metadata.mayWrite credentials = true ∧
      (openDirectory.inodes inode).metadata.mayExecute credentials = true := by
  have hmay : ∀ user group others : BitVec 16, (sIfdir ||| 0o777) &&& user ≠ 0 →
      (sIfdir ||| 0o777) &&& group ≠ 0 → (sIfdir ||| 0o777) &&& others ≠ 0 →
      (openDirectory.inodes inode).metadata.may credentials user group others = true := by
    intro user group others huser hgroup hothers
    rw [InodeMetadata.may]
    split
    · rfl
    · split
      · exact decide_eq_true huser
      · split
        · exact decide_eq_true hgroup
        · exact decide_eq_true hothers
  exact ⟨hmay _ _ _ (by decide) (by decide) (by decide),
    hmay _ _ _ (by decide) (by decide) (by decide)⟩

/-- A name that the directory does not have is missing in it. -/
theorem resolvePath_custodyAt (process : Process) (options : BitVec 32) (path : List Str)
    {name : Str} (hname : LexicalPath.Proper name) :
    openDirectory.resolvePath process options name (custodyAt path) =
      ⟨.error .ENOENT, some (custodyAt path)⟩ := by
  have hhead : name.head? ≠ some '/' := fun h => hname.2.1 (List.mem_of_mem_head? h)
  have hloop : ∀ deeper, openDirectory.resolveLoop process options deeper (custodyAt path) [name]
      none = ⟨.error .ENOENT, some (custodyAt path)⟩ := by
    intro deeper
    have hdirectory : ∀ inode, isDirectory (openDirectory.inodes inode).metadata.mode = true := by
      intro inode
      change isDirectory (sIfdir ||| 0o777) = true
      decide
    have hlookup : ∀ inode, openDirectory.lookup inode name = none := fun _ => rfl
    simp [VFS.resolveLoop, hdirectory, (may_openDirectory _ _).2, hname.1, hname.2.2.1,
      hname.2.2.2, hlookup]
  have hpath : openDirectory.resolvePathWithoutVeil process options name (custodyAt path) =
      ⟨.error .ENOENT, some (custodyAt path)⟩ := by
    rw [VFS.resolvePathWithoutVeil, symlinkRecursionLimit, VFS.resolvePathLevels,
      if_neg hname.1, if_neg hhead, LexicalPath.splitView_of_proper hname, hloop]
  rw [VFS.resolvePath, hpath]
  rfl

theorem trimTrailingSlashes_of_proper {name : Str} (hname : LexicalPath.Proper name) :
    trimTrailingSlashes name = name := by
  have htrim : ∀ l : Str, '/' ∉ l → trimLeadingSlashes l = l := by
    rintro (_ | ⟨ch, _ | ⟨next, rest⟩⟩) hslash
    · rfl
    · rfl
    · rw [trimLeadingSlashes, if_neg fun h => hslash (by simp [h])]
  rw [trimTrailingSlashes, htrim _ (by simpa using hname.2.1), List.reverse_reverse]

variable {path : List Str} {name : Str}

/-- `mkdir` in this directory needs no permission. -/
theorem not_veilSafe_of_mkdir (hproper : ∀ part ∈ path ++ [name], LexicalPath.Proper part)
    (hlength : name.length ≤ nameMax) (hpermitted : process.createPermitted (path ++ [name]) ≠ true) :
    ¬ process.VeilSafe false (path ++ [name]) := by
  have hname : LexicalPath.Proper name := hproper name (by simp)
  have hresolve := resolvePath_custodyAt process 0 path hname
  obtain ⟨next, hcreate, hentry⟩ : ∃ next, openDirectory.createChild 0 name (sIfdir ||| 0o755) 0
      process.credentials.euid process.credentials.egid = some (.ok 1, next) ∧
      next.entry 0 name = some 1 :=
    VFS.exists_createChild _ _ _ (by decide) (by decide) hlength
  have hparent : openDirectory.parentOfNewPath process name (custodyAt path) =
      .ok (custodyAt path) := by
    simp only [VFS.parentOfNewPath, hresolve, VFS.metadataOf, (may_openDirectory _ _).1,
      isReadonly_custodyAt]
    rfl
  have hexecute : (Operation.mkdir name 0o755 (custodyAt path)).execute openDirectory process =
      some (.ok (), next) := by
    rw [Operation.execute, VFS.mkdir, trimTrailingSlashes_of_proper hname, hparent,
      VFS.createInParent, inode_custodyAt, LexicalPath.basename_of_proper hname, hcreate]
    rfl
  intro hsafe
  obtain ⟨parent, hplace, -, hpermission⟩ := hsafe openDirectory next _ 0 _ name rfl hexecute hentry
    (by simp [VFS.entry, openDirectory])
  rw [Operation.place, trimTrailingSlashes_of_proper hname, hresolve,
    LexicalPath.basename_of_proper hname] at hplace
  obtain ⟨rfl, -⟩ := Prod.mk.inj (some.inj hplace)
  exact hpermitted (hpermission (by rw [components_custodyAt]))

/-- `open` in this directory needs no permission at the path of the loader. -/
theorem not_veilSafe_of_open (hpermitted : process.createPermitted loaderComponents ≠ true) :
    ¬ process.VeilSafe true loaderComponents := by
  set directory : List Str := [['u', 's', 'r'], ['l', 'i', 'b']] with hdirectory
  set name : Str := ['L', 'o', 'a', 'd', 'e', 'r', '.', 's', 'o'] with hnameDef
  have hname : LexicalPath.Proper name := by decide
  have hresolve := resolvePath_custodyAt process oCreat directory hname
  obtain ⟨next, hcreate, hentry⟩ : ∃ next, openDirectory.createChild 0 name
      (0o644 ||| 0o100000) 0 process.credentials.euid process.credentials.egid =
      some (.ok 1, next) ∧ next.entry 0 name = some 1 :=
    VFS.exists_createChild _ _ _ (by decide) (by decide) (by decide)
  have hveil : process.validatePathAgainstProcessVeil
      ((custodyAt directory).absolutePath ++ '/' :: name) oCreat = .ok () := by
    have hpath : (custodyAt directory).absolutePath ++ '/' :: name = loaderPath := by decide +kernel
    rw [validatePathAgainstProcessVeil, if_pos hpath]
    split <;> rfl
  have hexecute : (Operation.open name oCreat 0o644 (custodyAt directory) none (.ok ())).execute
      openDirectory process = some (.ok (), next) := by
    have hcreateFile : openDirectory.create process name oCreat 0o644 (custodyAt directory) none
        (.ok ()) = some (.ok (), next) := by
      have hmode : (!isSocket 0o644 && !isFifo 0o644 && !isBlockDevice 0o644 &&
          !isCharacterDevice 0o644) = true := by decide
      simp only [VFS.create, LexicalPath.basename_of_proper hname, hveil, VFS.metadataOf,
        (may_openDirectory _ _).1, isReadonly_custodyAt, hmode, inode_custodyAt]
      simp only [Bool.not_true, Bool.false_eq_true, if_false, if_true, getD_none, hcreate]
      rfl
    rw [Operation.execute, VFS.open, if_neg (by decide)]
    simp only [hresolve]
    rw [if_pos (by decide), if_neg (by simp), hcreateFile]
  intro hsafe
  obtain ⟨parent, hplace, -, hpermission⟩ := hsafe openDirectory next _ 0 _ name rfl hexecute hentry
    (by simp [VFS.entry, openDirectory])
  rw [Operation.place, hresolve, LexicalPath.basename_of_proper hname] at hplace
  obtain ⟨rfl, -⟩ := Prod.mk.inj (some.inj hplace)
  exact hpermitted (hpermission (by rw [components_custodyAt]; rfl))

/-- **The veil and new files.** Let a process have a veil. An entry at a path whose deepest unveiled
prefix lacks the create permission is never added by `open` exactly if the path is not that of the
loader, and the other operations may add it on some file system. -/
theorem veilSafe_iff {isOpen : Bool} (hveil : process.veilState ≠ .none)
    (hproper : ∀ part ∈ path ++ [name], LexicalPath.Proper part) (hlength : name.length ≤ nameMax) :
    process.VeilSafe isOpen (path ++ [name]) ↔
      process.createPermitted (path ++ [name]) = true ∨
        (isOpen = true ∧ path ++ [name] ≠ loaderComponents) := by
  constructor
  · intro hsafe
    by_contra hcond
    rw [not_or, not_and, not_not] at hcond
    obtain ⟨hpermitted, hloader⟩ := hcond
    cases isOpen with
    | false => exact not_veilSafe_of_mkdir hproper hlength hpermitted hsafe
    | true =>
      rw [hloader rfl] at hpermitted hsafe
      exact not_veilSafe_of_open hpermitted hsafe
  · intro hcond vfs next op directory child entryName hkind hexecute hentry hnew
    obtain ⟨parent, hplace, hinode⟩ := Operation.execute_adds hexecute hentry hnew
    refine ⟨parent, hplace, hinode, fun hpath => ?_⟩
    rcases hcond with hpermitted | ⟨rfl, hloader⟩
    · exact hpermitted
    · -- only `open` is left, and it has checked the path
      cases op with
      | «open» openPath options mode base owner description =>
        obtain ⟨parent', hplace', -, hcreat, hvalid⟩ := VFS.open_adds hentry hnew hexecute
        obtain ⟨rfl, -⟩ := Prod.mk.inj (some.inj (hplace.symm.trans hplace'))
        rw [← hpath] at hproper hloader ⊢
        exact createPermitted_of_validate hveil hcreat hproper hloader hvalid
      | mkdir | mknod | symlink | link | rename => cases hkind

/-- A process that has unveiled `/a` for reading, and nothing else. -/
def readOnlyVeil : Process where
  credentials := { euid := 0, egid := 0 }
  rootDirectory := .root 0 0
  veilState := .dropped
  unveiledPaths := UnveilNode.initial.insert (fun metadata _ => metadata)
    ⟨['/', 'a'], UnveilAccess.read, true, false⟩ [['a']]

/-- This process cannot create `/d` by `open`. -/
theorem veilSafe_iff_read_only_veil : readOnlyVeil.VeilSafe true ([] ++ [['d']]) :=
  (veilSafe_iff (by decide) (by decide) (by decide)).mpr (.inr ⟨rfl, by decide⟩)

/-- But it can by `mkdir`. -/
theorem mkdir_without_create_permission :
    ∃ next, (Operation.mkdir ['/', 'd'] 0o755 (.root 0 0)).execute openDirectory readOnlyVeil =
        some (.ok (), next) ∧
      next.entry 0 ['d'] = some 1 ∧ openDirectory.entry 0 ['d'] = none ∧
      (Operation.mkdir ['/', 'd'] 0o755 (.root 0 0)).place openDirectory readOnlyVeil =
        some (.root 0 0, ['d']) ∧
      readOnlyVeil.veilState ≠ .none ∧ readOnlyVeil.createPermitted [['d']] = false := by
  have hrun : ((Operation.mkdir ['/', 'd'] 0o755 (.root 0 0)).execute openDirectory
      readOnlyVeil).map (fun outcome => (outcome.1.isOk, outcome.2.entry 0 ['d'])) =
      some (true, some 1) := by decide +kernel
  obtain ⟨⟨result, next⟩, hexecute, houtcome⟩ := map_eq_some_iff.mp hrun
  obtain ⟨hok, hentry⟩ := Prod.mk.inj houtcome
  cases result with
  | error e => cases hok
  | ok u =>
    exact ⟨next, hexecute, hentry, rfl, by decide +kernel, by decide, by decide +kernel⟩

end Process

end Kernel
