import PranaOS.Kernel.Syscalls.Unveil

/-!
# Runs of `sys$unveil`

A process calls `sys$unveil` again and again, with any arguments. What a call should keep to is
`StepSafe`: a call that succeeds with a path leaves the process with a veil, a locked veil refuses
everything, an explicitly unveiled path never gets a permission back, and a call that fails changes
nothing.

Two exits of the system call do not keep to it. Unveiling the root, whose node is always there,
returns before the state of the veil is set; and a call with two null pointers succeeds on a locked
veil. In every state that a process can reach, these are the only calls that do not
(`stepSafe_iff_stepOk`).
-/

namespace Kernel

open AK Transition Option

namespace Process

variable (process : Process)

/-- The permissions that a path has in effect: all of them while there is no veil. -/
def effectivePermissions (path : Str) : BitVec 32 :=
  if process.veilState = .none then BitVec.allOnes 32 else process.permissionsFor path

/-- Every permission of the first word is one of the second. -/
def PermissionsLe (new old : BitVec 32) : Prop := new &&& ~~~old = 0

/-- A call: the state of the file system at the time, and the parameters. -/
structure AnyUnveilCall where
  /-- The file system. -/
  vfs : VFS
  /-- The parameters, if they can be copied. -/
  params : Option UnveilParams

/-- The call locks the veil. -/
def AnyUnveilCall.isLock (call : AnyUnveilCall) : Prop :=
  ∃ params, call.params = some params ∧ params.path = .null ∧ params.permissions = .null

/-- The process after a call. -/
def unveilStep (call : AnyUnveilCall) : Option Process :=
  (process.sysUnveil call.vfs call.params).map Prod.snd

/-- What a call should keep to. -/
structure StepSafe (process : Process) (call : AnyUnveilCall) (result : KResultOr Unit)
    (next : Process) : Prop where
  /-- A call that succeeds with a path leaves a veil. -/
  drops : result = .ok () → ¬ call.isLock → next.veilState ≠ .none
  /-- A veil stays. -/
  stays : process.veilState ≠ .none → next.veilState ≠ .none
  /-- A locked veil refuses every call. -/
  locked : process.veilState = .locked → result ≠ .ok () ∧ next = process
  /-- An explicitly unveiled path gets no permission that it did not have. -/
  explicit : result = .ok () → ∀ path metadata, (∀ part ∈ path, LexicalPath.Proper part) →
    process.unveiledPaths.metadataAt path = some metadata → metadata.explicitlyUnveiled = true →
    PermissionsLe (next.effectivePermissions (LexicalPath.absolutePath path))
      (process.effectivePermissions (LexicalPath.absolutePath path))
  /-- A call that fails changes nothing. -/
  fails : result ≠ .ok () → next.veilState = process.veilState ∧
    ∀ path, next.effectivePermissions path = process.effectivePermissions path

/-- The check of `sys$unveil` on a path that has a node. -/
def refusesPermissions (node : UnveilMetadata) (newPermissions : BitVec 32) : Bool :=
  (node.permissions ≠ UnveilAccess.none ∨ !node.unveilInheritedFromRoot) ∧
    newPermissions &&& ~~~node.permissions ≠ 0

/-- The condition on a call: the root is not unveiled while there is no veil, unless the call is
refused, and a locked veil is not locked again. -/
def StepOk (call : AnyUnveilCall) : Prop :=
  (process.veilState = .none → ∀ params newPath newPermissions, call.params = some params →
    ¬ call.isLock → process.unveilRequest call.vfs params = .ok (newPath, newPermissions) →
    LexicalPath.parts newPath = [] →
    refusesPermissions process.unveiledPaths.metadata newPermissions = true) ∧
  (process.veilState = .locked → ¬ call.isLock)

/-! ## What a call does -/

variable {process next : Process} {call : AnyUnveilCall} {result : KResultOr Unit}

/-- All that `unveilPath` can do, if the veil is not locked. -/
theorem unveilPath_cases (newPath : Str) (newPermissions : BitVec 32)
    (hlocked : process.veilState ≠ .locked) :
    (∃ metadata, process.unveiledPaths.metadataAt (LexicalPath.parts newPath) = some metadata ∧
      refusesPermissions metadata newPermissions = true ∧
      process.unveilPath newPath newPermissions = some (.error .EPERM, process)) ∨
    (∃ metadata fullPath,
      process.unveiledPaths.metadataAt (LexicalPath.parts newPath) = some metadata ∧
      refusesPermissions metadata newPermissions = false ∧
      process.unveilPath newPath newPermissions = some (.ok (), { process with
        unveiledPaths := process.unveiledPaths.insert provideMissingMetadata
          ⟨fullPath, newPermissions, true, false⟩ (LexicalPath.parts newPath) })) ∨
    (process.unveiledPaths.metadataAt (LexicalPath.parts newPath) = none ∧
      process.unveilPath newPath newPermissions = some (.ok (), { process with
        unveiledPaths := process.unveiledPaths.insert provideMissingMetadata
          ⟨newPath, newPermissions, true, false⟩ (LexicalPath.parts newPath)
        veilState := .dropped })) := by
  set parts := LexicalPath.parts newPath with hparts
  cases hnode : process.unveiledPaths.metadataAt parts with
  | none =>
    have hrest : (process.unveiledPaths.traverseUntilLastAccessibleNode parts).2 ≠ [] := by
      rw [Ne, Trie.traverse_snd_eq_nil_iff, hnode]
      simp
    refine .inr (.inr ⟨rfl, ?_⟩)
    simp [unveilPath, ← hparts, hrest, verify, hlocked, Trie.modifyLastAccessibleNode_insert]
  | some metadata =>
    have hrest : (process.unveiledPaths.traverseUntilLastAccessibleNode parts).2 = [] := by
      rw [Trie.traverse_snd_eq_nil_iff, hnode]
      simp
    have hmetadata := Trie.metadata_traverse_of_metadataAt _ _ hnode
    have hset : ∀ m, process.unveiledPaths.modifyLastAccessibleNode
        (fun last _ => last.setMetadata m) parts =
          process.unveiledPaths.insert provideMissingMetadata m parts := fun m =>
      Trie.modifyLastAccessibleNode_setMetadata _ _ _ _ (by simp [hnode])
    by_cases hrefuse : refusesPermissions metadata newPermissions = true
    · refine .inl ⟨metadata, rfl, hrefuse, ?_⟩
      rw [refusesPermissions, decide_eq_true_iff] at hrefuse
      simp only [unveilPath, ← hparts, hrest, UnveilNode.permissions,
        UnveilNode.permissionsInheritedFromRoot, hmetadata, if_pos hrefuse, if_true]
    · refine .inr (.inl ⟨metadata, metadata.fullPath, rfl, by simpa using hrefuse, ?_⟩)
      rw [refusesPermissions, decide_eq_true_iff] at hrefuse
      simp only [unveilPath, ← hparts, hrest, UnveilNode.permissions, UnveilNode.path,
        UnveilNode.permissionsInheritedFromRoot, hmetadata, if_neg hrefuse, if_true, hset]

/-- A request is only made of a veil that is not locked. -/
theorem veilState_of_unveilRequest {vfs : VFS} {params : UnveilParams} {request : Str × BitVec 32}
    (h : process.unveilRequest vfs params = .ok request) : process.veilState ≠ .locked := by
  intro hlocked
  rw [unveilRequest, if_pos hlocked] at h
  cases h

/-- All that a call can do: lock the veil, fail, or change the veil at the path that it asks for. -/
theorem sysUnveil_cases (process : Process) (call : AnyUnveilCall) :
    (call.isLock ∧ process.sysUnveil call.vfs call.params =
      some (.ok (), { process with veilState := .locked })) ∨
    (¬ call.isLock ∧ (∀ params request, call.params = some params →
        process.unveilRequest call.vfs params ≠ .ok request) ∧
      ∃ e, process.sysUnveil call.vfs call.params = some (.error e, process)) ∨
    (¬ call.isLock ∧ ∃ params newPath newPermissions, call.params = some params ∧
      process.unveilRequest call.vfs params = .ok (newPath, newPermissions) ∧
      process.sysUnveil call.vfs call.params = process.unveilPath newPath newPermissions) := by
  obtain ⟨vfs, params⟩ := call
  cases params with
  | none =>
    refine .inr (.inl ⟨?_, nofun, .EFAULT, rfl⟩)
    rintro ⟨params, h, -⟩
    cases h
  | some params =>
    by_cases hnull : params.path = .null ∧ params.permissions = .null
    · exact .inl ⟨⟨params, rfl, hnull⟩, if_pos hnull⟩
    · right
      have hlock : ¬ AnyUnveilCall.isLock ⟨vfs, some params⟩ := by
        rintro ⟨params', h, hnull'⟩
        obtain rfl := some.inj h
        exact hnull hnull'
      cases hrequest : process.unveilRequest vfs params with
      | error e =>
        refine .inl ⟨hlock, ?_, e, by simp [sysUnveil, hnull, hrequest]⟩
        rintro params' request hparams hok
        obtain rfl := some.inj hparams
        rw [hrequest] at hok
        cases hok
      | ok request =>
        exact .inr ⟨hlock, params, request.1, request.2, rfl, hrequest,
          by simp [sysUnveil, hnull, hrequest]⟩

/-! ## The states that a process can reach -/

/-- What holds in every state that calls can lead to. -/
structure VeilInv (process : Process) : Prop where
  /-- A veil that was dropped has a path below the root. -/
  dropped : process.veilState = .dropped → process.unveiledPaths.isEmpty = false
  /-- Without a veil there is only the root. -/
  none : process.veilState = .none → process.unveiledPaths.isEmpty = true
  /-- Explicitly unveiled paths do not inherit from the root. -/
  explicit : ∀ path metadata, process.unveiledPaths.metadataAt path = some metadata →
    metadata.explicitlyUnveiled = true → metadata.unveilInheritedFromRoot = false

theorem veilInv_fresh (credentials : Credentials) (rootDirectory : Custody) :
    VeilInv { credentials := credentials, rootDirectory := rootDirectory } := by
  refine ⟨nofun, fun _ => rfl, ?_⟩
  rintro (_ | ⟨part, rest⟩) metadata hm hexplicit
  · obtain rfl := some.inj hm
    cases hexplicit
  · cases hm

variable {parts : List Str} {permissions : BitVec 32} {metadata : UnveilMetadata}

/-- Unveiling a path keeps the marks of the nodes consistent. -/
theorem explicit_insert {paths : UnveilNode} {fullPath : Str}
    (h : ∀ path metadata, paths.metadataAt path = some metadata →
      metadata.explicitlyUnveiled = true → metadata.unveilInheritedFromRoot = false)
    (path : List Str) (metadata : UnveilMetadata)
    (hm : (paths.insert provideMissingMetadata ⟨fullPath, permissions, true, false⟩ parts).metadataAt
      path = some metadata) (hexplicit : metadata.explicitlyUnveiled = true) :
    metadata.unveilInheritedFromRoot = false := by
  rcases paths.metadataAt_insert_cases _ _ _ hm with ⟨-, rfl⟩ | hold |
    ⟨-, before, value, parent, -, -, rfl⟩
  · rfl
  · exact h path metadata hold hexplicit
  · -- the node was created on the way, and is not marked
    cases hexplicit

/-- Every call keeps the invariant. -/
theorem VeilInv.step (h : process.VeilInv) (hstep : process.unveilStep call = some next) :
    next.VeilInv := by
  obtain ⟨⟨result, _⟩, hsys, rfl⟩ := map_eq_some_iff.mp hstep
  rcases process.sysUnveil_cases call with ⟨-, hlock⟩ | ⟨-, -, e, hfail⟩ |
    ⟨-, params, newPath, newPermissions, -, hrequest, hunveil⟩
  · rw [hlock, some.injEq, Prod.mk.injEq] at hsys
    obtain ⟨-, rfl⟩ := hsys
    exact ⟨nofun, nofun, h.explicit⟩
  · rw [hfail, some.injEq, Prod.mk.injEq] at hsys
    exact hsys.2 ▸ h
  · rw [hunveil] at hsys
    rcases unveilPath_cases newPath newPermissions (veilState_of_unveilRequest hrequest) with
      ⟨metadata, -, -, hfail⟩ | ⟨metadata, fullPath, hnode, -, hset⟩ | ⟨hnode, hinsert⟩
    · rw [hfail, some.injEq, Prod.mk.injEq] at hsys
      exact hsys.2 ▸ h
    · rw [hset, some.injEq, Prod.mk.injEq] at hsys
      obtain ⟨-, rfl⟩ := hsys
      refine ⟨fun hdropped => ?_, fun hnone => ?_, explicit_insert h.explicit⟩
      · rw [Bool.eq_false_iff, Ne, isEmpty_insert_iff, not_and]
        exact fun _ => by simp [h.dropped hdropped]
      · rw [isEmpty_insert_iff]
        exact ⟨Trie.eq_nil_of_isEmpty _ (h.none hnone) (isSome_of_eq_some hnode), h.none hnone⟩
    · rw [hinsert, some.injEq, Prod.mk.injEq] at hsys
      obtain ⟨-, rfl⟩ := hsys
      refine ⟨fun _ => ?_, nofun, explicit_insert h.explicit⟩
      rw [Bool.eq_false_iff, Ne, isEmpty_insert_iff, not_and]
      intro hnil
      rw [hnil] at hnode
      cases hnode

/-! ## Permissions -/

theorem permissionsLe_refl (permissions : BitVec 32) : PermissionsLe permissions permissions := by
  simp [PermissionsLe]

theorem permissionsLe_allOnes (permissions : BitVec 32) :
    PermissionsLe permissions (BitVec.allOnes 32) := by
  simp [PermissionsLe]

/-- What a dropped veil gives a path that has a node. -/
theorem effectivePermissions_of_node (hstate : process.veilState ≠ .none)
    (hempty : process.unveiledPaths.isEmpty = false) {path : List Str}
    (hpath : ∀ part ∈ path, LexicalPath.Proper part)
    (hnode : process.unveiledPaths.metadataAt path = some metadata) :
    process.effectivePermissions (LexicalPath.absolutePath path) = metadata.permissions := by
  rw [effectivePermissions, if_neg hstate, Veil.permissionsFor_absolutePath _ hpath, hempty,
    if_neg (by simp), Trie.metadata_traverse_of_metadataAt _ _ hnode]

/-- An insertion gives explicitly unveiled paths no new permissions, if the new permissions of its own
path are old ones. -/
theorem permissionsLe_insert (hinv : process.VeilInv) (hlocked : process.veilState ≠ .locked)
    {fullPath : Str} {state : VeilState}
    (hstate : process.veilState = .dropped → state = .dropped)
    (hself : ∀ metadata, process.unveiledPaths.metadataAt parts = some metadata →
      metadata.explicitlyUnveiled = true → PermissionsLe permissions metadata.permissions)
    {path : List Str} (hpath : ∀ part ∈ path, LexicalPath.Proper part)
    (hnode : process.unveiledPaths.metadataAt path = some metadata)
    (hexplicit : metadata.explicitlyUnveiled = true) :
    PermissionsLe
      (effectivePermissions { process with
        unveiledPaths := process.unveiledPaths.insert provideMissingMetadata
          ⟨fullPath, permissions, true, false⟩ parts
        veilState := state } (LexicalPath.absolutePath path))
      (process.effectivePermissions (LexicalPath.absolutePath path)) := by
  cases hveil : process.veilState with
  | none =>
    rw [effectivePermissions.eq_1 process, if_pos hveil]
    exact permissionsLe_allOnes _
  | locked => exact absurd hveil hlocked
  | dropped =>
    have hempty := hinv.dropped hveil
    have hempty' : (process.unveiledPaths.insert provideMissingMetadata
        ⟨fullPath, permissions, true, false⟩ parts).isEmpty = false := by
      rw [Bool.eq_false_iff, Ne, isEmpty_insert_iff, not_and]
      exact fun _ => by simp [hempty]
    rw [hstate hveil, effectivePermissions_of_node (by simp [hveil]) hempty hpath hnode]
    by_cases hparts : path = parts
    · subst hparts
      rw [effectivePermissions_of_node (by simp) hempty' hpath (Trie.metadataAt_insert_self _ _ _ _)]
      exact hself metadata hnode hexplicit
    · have hsame := (Trie.metadataAt_insert_of_isSome process.unveiledPaths
        ⟨fullPath, permissions, true, false⟩ parts provideMissingMetadata hparts
        (by simp [hnode])).trans hnode
      rw [effectivePermissions_of_node (by simp) hempty' hpath hsame]
      exact permissionsLe_refl _

/-- The check of `sys$unveil` protects explicitly unveiled paths. -/
theorem permissionsLe_of_not_refuses (hinherited : metadata.unveilInheritedFromRoot = false)
    (h : refusesPermissions metadata permissions = false) :
    PermissionsLe permissions metadata.permissions := by
  by_contra hle
  simp [refusesPermissions, hinherited] at h
  exact hle h

/-! ## Calls -/

/-- A call that fails keeps to everything. -/
theorem stepSafe_error (e : Errno) : StepSafe process call (.error e) process where
  drops h := by cases h
  stays h := h
  locked _ := ⟨nofun, rfl⟩
  explicit h := by cases h
  fails _ := ⟨rfl, fun _ => rfl⟩

/-- Locking a veil that is not locked keeps to everything. -/
theorem stepSafe_lock (hlock : call.isLock) (hlocked : process.veilState ≠ .locked) :
    StepSafe process call (.ok ()) { process with veilState := .locked } where
  drops _ h := absurd hlock h
  stays _ := nofun
  locked h := absurd h hlocked
  explicit _ path metadata hpath hnode _ := by
    cases hveil : process.veilState with
    | none =>
      rw [effectivePermissions.eq_1 process, if_pos hveil]
      exact permissionsLe_allOnes _
    | locked => exact absurd hveil hlocked
    | dropped =>
      have hsame : effectivePermissions { process with veilState := .locked }
          (LexicalPath.absolutePath path) =
            process.effectivePermissions (LexicalPath.absolutePath path) := by
        simp [effectivePermissions, hveil, permissionsFor, findMatchingUnveiledPath]
      rw [hsame]
      exact permissionsLe_refl _
  fails h := absurd rfl h

/-- `unveil(nullptr, nullptr)`. -/
def lockVeil : AnyUnveilCall := ⟨Veil.nestedDirectories, some ⟨.null, .null⟩⟩

/-- `unveil("/", "r")`. -/
def unveilRoot : AnyUnveilCall where
  vfs := Veil.nestedDirectories
  params := some ⟨.characters 1 (some ['/']), .characters 1 (some ['r'])⟩

/-- The superuser, who has not unveiled anything. -/
def superuser : Process where
  credentials := { euid := 0, egid := 0 }
  rootDirectory := .root 0 0

/-- **Runs of `sys$unveil`.** Let a process make any calls of `sys$unveil`. In every state that it
reaches every call returns, and it keeps to `StepSafe` if and only if it meets the condition
`StepOk`. -/
theorem stepSafe_iff_stepOk {credentials : Credentials} {rootDirectory : Custody}
    {calls : List AnyUnveilCall}
    (hrun : run unveilStep { credentials := credentials, rootDirectory := rootDirectory } calls =
      some process) (call : AnyUnveilCall) :
    ∃ result next, process.sysUnveil call.vfs call.params = some (result, next) ∧
      (StepSafe process call result next ↔ process.StepOk call) := by
  have hinv : process.VeilInv :=
    run_invariant (fun s a s' hinv hstep => VeilInv.step hinv hstep)
      (veilInv_fresh credentials rootDirectory) hrun
  rcases process.sysUnveil_cases call with ⟨hlock, hsys⟩ | ⟨hlock, hrequest, e, hsys⟩ |
    ⟨hlock, params, newPath, newPermissions, hparams, hrequest, hunveil⟩
  · refine ⟨_, _, hsys, ⟨fun hsafe => ?_, fun hok => ?_⟩⟩
    · refine ⟨fun _ _ _ _ _ hnot => absurd hlock hnot, fun hlocked => ?_⟩
      exact absurd rfl (hsafe.locked hlocked).1
    · exact stepSafe_lock hlock fun hlocked => hok.2 hlocked hlock
  · refine ⟨_, _, hsys, iff_of_true (stepSafe_error e) ⟨?_, fun _ => hlock⟩⟩
    exact fun _ params newPath newPermissions hparams _ hok =>
      absurd hok (hrequest params _ hparams)
  · have hlocked := veilState_of_unveilRequest hrequest
    -- the condition speaks of this request only
    have hok : process.StepOk call ↔ (process.veilState = .none → LexicalPath.parts newPath = [] →
        refusesPermissions process.unveiledPaths.metadata newPermissions = true) := by
      constructor
      · exact fun h hnone hroot => h.1 hnone params newPath newPermissions hparams hlock hrequest hroot
      · refine fun h => ⟨?_, fun hstate => absurd hstate hlocked⟩
        intro hnone params' newPath' newPermissions' hparams' _ hrequest' hroot
        obtain rfl := some.inj (hparams.symm.trans hparams')
        obtain ⟨rfl, rfl⟩ := Prod.mk.inj (Except.ok.inj (hrequest.symm.trans hrequest'))
        exact h hnone hroot
    rw [hunveil, hok]
    rcases unveilPath_cases newPath newPermissions hlocked with
      ⟨metadata, hnode, hrefuse, hfail⟩ | ⟨metadata, fullPath, hnode, hrefuse, hset⟩ |
      ⟨hnode, hinsert⟩
    · refine ⟨_, _, hfail, iff_of_true (stepSafe_error _) fun _ hroot => ?_⟩
      rw [hroot, Trie.metadataAt_nil, some.injEq] at hnode
      rwa [hnode]
    · have hself : ∀ m, process.unveiledPaths.metadataAt (LexicalPath.parts newPath) = some m →
          m.explicitlyUnveiled = true → PermissionsLe newPermissions m.permissions := by
        intro m hm hexplicit
        rw [hnode, some.injEq] at hm
        subst hm
        exact permissionsLe_of_not_refuses (hinv.explicit _ _ hnode hexplicit) hrefuse
      refine ⟨_, _, hset, ⟨fun hsafe hnone => absurd hnone (hsafe.drops rfl hlock), fun hcond => ?_⟩⟩
      -- the state of the veil is left as it was, so that it must not be `None`
      have hveil : process.veilState ≠ .none := by
        intro hnone
        have hroot := Trie.eq_nil_of_isEmpty _ (hinv.none hnone) (isSome_of_eq_some hnode)
        have hrefused := hcond hnone hroot
        rw [hroot, Trie.metadataAt_nil, some.injEq] at hnode
        rw [hnode, hrefuse] at hrefused
        cases hrefused
      exact ⟨fun _ _ => hveil, fun h => h, fun h => absurd h hlocked,
        fun _ path m hpath hm hexplicit =>
          permissionsLe_insert hinv hlocked (fun h => h) hself hpath hm hexplicit,
        fun h => absurd rfl h⟩
    · refine ⟨_, _, hinsert, iff_of_true ?_ fun _ hroot => ?_⟩
      · exact ⟨fun _ _ => nofun, fun _ => nofun, fun h => absurd h hlocked,
          fun _ path m hpath hm hexplicit =>
            permissionsLe_insert hinv hlocked (fun _ => rfl) (by simp [hnode]) hpath hm hexplicit,
          fun h => absurd rfl h⟩
      · rw [hroot] at hnode
        cases hnode

/-- On a locked veil `unveil("/", "r")` keeps to everything. -/
theorem stepSafe_iff_stepOk_locked :
    ∃ process result next, run unveilStep superuser [lockVeil] = some process ∧
      process.sysUnveil unveilRoot.vfs unveilRoot.params = some (result, next) ∧
      StepSafe process unveilRoot result next := by
  have hrun : run unveilStep superuser [lockVeil] =
      some { superuser with veilState := .locked } := rfl
  obtain ⟨result, next, hsys, hiff⟩ := stepSafe_iff_stepOk hrun unveilRoot
  refine ⟨_, result, next, hrun, hsys, hiff.mpr ⟨nofun, fun _ => ?_⟩⟩
  rintro ⟨params, hparams, hnull, -⟩
  obtain rfl := some.inj hparams
  cases hnull

/-- After `unveil("/", "r")` the process still has no veil, and a locked veil can be locked again. -/
theorem unveil_root_leaves_no_veil :
    (∃ next, superuser.sysUnveil unveilRoot.vfs unveilRoot.params = some (.ok (), next) ∧
      ¬ unveilRoot.isLock ∧ next.veilState = .none) ∧
    (∃ process next, run unveilStep superuser [lockVeil] = some process ∧
      process.veilState = .locked ∧
      process.sysUnveil lockVeil.vfs lockVeil.params = some (.ok (), next)) := by
  refine ⟨?_, { superuser with veilState := .locked }, { superuser with veilState := .locked },
    rfl, rfl, rfl⟩
  have hsys : (superuser.sysUnveil unveilRoot.vfs unveilRoot.params).map
      (fun outcome => (outcome.1.isOk, outcome.2.veilState)) = some (true, VeilState.none) := by
    decide +kernel
  obtain ⟨⟨result, next⟩, hsys, houtcome⟩ := map_eq_some_iff.mp hsys
  obtain ⟨hok, hveil⟩ := Prod.mk.inj houtcome
  cases result with
  | error e => cases hok
  | ok u =>
    refine ⟨next, hsys, ?_, hveil⟩
    rintro ⟨params, hparams, hnull, -⟩
    obtain rfl := some.inj hparams
    cases hnull

end Process

end Kernel
