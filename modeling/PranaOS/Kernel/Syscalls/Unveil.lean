import PranaOS.ToMathlib.Except
import PranaOS.ToMathlib.Run
import PranaOS.Kernel.FileSystem.VirtualFileSystem

/-!
# `Kernel/Syscalls/unveil.cpp`

A process unveils paths one by one. The veil is meant to be given by the set of the paths unveiled:
the permissions for a path are those of the longest unveiled path that is a prefix of it
(`LongestUnveiled`).

The nodes that `sys$unveil` creates on the way to a path take over the permissions that their parent
has then, and keep them when the parent is unveiled later. So the order matters. As long as no path is
unveiled over such a node with other permissions than before, and the root is not the only path
unveiled, the veil is the intended one, and the first call that does so breaks it
(`veilOk_iff_meets`).
-/

namespace Kernel

open AK Transition Option List

/-- `PATH_MAX`. -/
def pathMax : ℕ := 4096

/-- `Syscall::StringArgument`. -/
inductive StringArgument where
  /-- The pointer is null. -/
  | null
  /-- The length that is passed, and what `copy_string_from_user` copies, if it can. -/
  | characters (length : ℕ) (copied : Option Str)
deriving DecidableEq, Repr

/-- `get_syscall_path_argument`. -/
def getSyscallPathArgument (length : ℕ) (copied : Option Str) : KResultOr Str :=
  if length = 0 then .error .EINVAL
  else if length > pathMax then .error .ENAMETOOLONG
  else
    match copied with
    | none => .error .EFAULT
    | some path => .ok path

/-- `Syscall::SC_unveil_params`. -/
structure UnveilParams where
  /-- `path`. -/
  path : StringArgument
  /-- `permissions`. -/
  permissions : StringArgument
deriving DecidableEq, Repr

/-- The loop of `sys$unveil` over the characters of the permissions. -/
def parsePermissions : BitVec 32 → Str → KResultOr (BitVec 32)
  | newPermissions, [] => .ok newPermissions
  | newPermissions, permission :: rest =>
    if permission = 'r' then parsePermissions (newPermissions ||| UnveilAccess.read) rest
    else if permission = 'w' then parsePermissions (newPermissions ||| UnveilAccess.write) rest
    else if permission = 'x' then parsePermissions (newPermissions ||| UnveilAccess.execute) rest
    else if permission = 'c' then
      parsePermissions (newPermissions ||| UnveilAccess.createOrRemove) rest
    else if permission = 'b' then parsePermissions (newPermissions ||| UnveilAccess.browse) rest
    else .error .EINVAL

namespace Process

variable (process : Process) (vfs : VFS)

/-- `new_unveiled_path`. -/
def newUnveiledPath (path : Str) (newPermissions : BitVec 32) : KResultOr Str :=
  let resolution := vfs.resolvePathWithoutVeil process 0 path process.rootDirectory
  match resolution.result with
  | .ok custody => .ok custody.absolutePath
  | .error e =>
    match resolution.outParent with
    | none => .error e
    | some parentCustody =>
      if e = .ENOENT ∧ hasAnyBit newPermissions UnveilAccess.createOrRemove then
        .ok (parentCustody.absolutePath ++ '/' :: LexicalPath.basename path)
      else .error e

/-- What `sys$unveil` is asked to unveil: the part of the call before the veil is looked at. -/
def unveilRequest (params : UnveilParams) : KResultOr (Str × BitVec 32) :=
  if process.veilState = .locked then .error .EPERM
  else
    match params.path, params.permissions with
    | .characters pathLength copiedPath, .characters permissionsLength copiedPermissions =>
      if permissionsLength > 5 then .error .EINVAL
      else do
        let path ← getSyscallPathArgument pathLength copiedPath
        if path.head? ≠ some '/' then .error .EINVAL
        else
          match copiedPermissions with
          | none => .error .EFAULT
          | some permissions =>
            let newPermissions ← parsePermissions 0 permissions
            let newUnveiledPath ← process.newUnveiledPath vfs path newPermissions
            return (newUnveiledPath, newPermissions)
    | _, _ => .error .EINVAL

/-- The metadata of a node that is missing on the way. -/
def provideMissingMetadata (parent : UnveilMetadata) (it : Str) : UnveilMetadata where
  fullPath := parent.fullPath ++ '/' :: it
  permissions := parent.permissions
  explicitlyUnveiled := false
  unveilInheritedFromRoot := parent.unveilInheritedFromRoot

/-- The part of `sys$unveil` that changes the veil. -/
def unveilPath (newUnveiledPath : Str) (newPermissions : BitVec 32) :
    Option (KResultOr Unit × Process) :=
  let parts := LexicalPath.parts newUnveiledPath
  let (matchingNode, rest) := process.unveiledPaths.traverseUntilLastAccessibleNode parts
  if rest = [] then
    let oldPermissions := UnveilNode.permissions matchingNode
    if (oldPermissions ≠ UnveilAccess.none ∨ !UnveilNode.permissionsInheritedFromRoot matchingNode) ∧
        newPermissions &&& ~~~oldPermissions ≠ 0 then
      some (.error .EPERM, process)
    else
      some (.ok (), { process with
        unveiledPaths := process.unveiledPaths.modifyLastAccessibleNode
          (fun node _ => node.setMetadata
            ⟨UnveilNode.path matchingNode, newPermissions, true, false⟩) parts })
  else do
    -- the iterator has not reached the end
    let unveiledPaths := process.unveiledPaths.modifyLastAccessibleNode
      (fun node rest => node.insert provideMissingMetadata
        ⟨newUnveiledPath, newPermissions, true, false⟩ rest) parts
    verify (process.veilState ≠ .locked)
    return (.ok (), { process with unveiledPaths := unveiledPaths, veilState := .dropped })

/-- `sys$unveil`. The parameters are `none` if they cannot be copied. -/
def sysUnveil (params : Option UnveilParams) : Option (KResultOr Unit × Process) :=
  match params with
  | none => some (.error .EFAULT, process)
  | some params =>
    if params.path = .null ∧ params.permissions = .null then
      some (.ok (), { process with veilState := .locked })
    else
      match process.unveilRequest vfs params with
      | .error e => some (.error e, process)
      | .ok (newUnveiledPath, newPermissions) =>
        process.unveilPath newUnveiledPath newPermissions

/-- The permissions that the veil gives for a path. -/
def permissionsFor (path : Str) : BitVec 32 :=
  match process.findMatchingUnveiledPath path with
  | none => UnveilAccess.none
  | some node => UnveilNode.permissions node

end Process

/-! ## What the veil is for -/

/-- The components of a path, and permissions for it. -/
abbrev Unveiled := List Str × BitVec 32

/-- `permissions` are those of the longest unveiled prefix of `path`, or none if there is no such
prefix. This depends on the set of the paths unveiled only. -/
def LongestUnveiled (unveiled : List Unveiled) (path : List Str) (permissions : BitVec 32) : Prop :=
  (∃ longest, (longest, permissions) ∈ unveiled ∧ longest <+: path ∧
    ∀ other ∈ unveiled, other.1 <+: path → other.1.length ≤ longest.length) ∨
  (permissions = UnveilAccess.none ∧ ∀ other ∈ unveiled, ¬ other.1 <+: path)

/-- One call of `sys$unveil`: the state of the file system at the time, and the parameters. -/
structure UnveilCall where
  /-- The file system. -/
  vfs : VFS
  /-- The parameters. -/
  params : UnveilParams

/-- A process, and what it has unveiled so far. -/
structure Veil where
  /-- The process. -/
  process : Process
  /-- The canonical paths and permissions of the calls. -/
  unveiled : List Unveiled := []

namespace Veil

variable (self : Veil)

/-- The canonical path and the permissions of a call. -/
def request (call : UnveilCall) : Option Unveiled :=
  match self.process.unveilRequest call.vfs call.params with
  | .error _ => none
  | .ok (path, permissions) => some (LexicalPath.parts path, permissions)

/-- A call that succeeds on a path that has not been unveiled before. -/
def step (call : UnveilCall) : Option Veil :=
  match self.request call, self.process.sysUnveil call.vfs (some call.params) with
  | some pair, some (.ok _, process) =>
    if pair.1 ∈ self.unveiled.map Prod.fst then none
    else some { process := process, unveiled := self.unveiled ++ [pair] }
  | _, _ => none

/-- The veil gives every canonical absolute path the permissions of the longest unveiled prefix. -/
def VeilOk : Prop :=
  ∀ path : List Str, (∀ part ∈ path, LexicalPath.Proper part) →
    LongestUnveiled self.unveiled path
      (self.process.permissionsFor (LexicalPath.absolutePath path))

/-- The node of a path has no child that was created on the way to another path, unless the path
keeps its permissions. The root does not become the only path with permissions. -/
def UnveilOk (pair : Unveiled) : Prop :=
  (∀ name metadata, self.process.unveiledPaths.metadataAt (pair.1 ++ [name]) = some metadata →
    metadata.explicitlyUnveiled = true ∨
      (self.process.unveiledPaths.metadataAt pair.1).map (·.permissions) = some pair.2) ∧
  (pair.1 = [] → self.process.unveiledPaths.isEmpty = true → pair.2 = UnveilAccess.none)

/-- The condition on a call. -/
def StepOk (call : UnveilCall) : Prop :=
  ∀ pair, self.request call = some pair → self.UnveilOk pair

end Veil

/-! ## The longest unveiled prefix -/

section LongestUnveiled

variable {unveiled unveiled' : List Unveiled} {path path' q : List Str} {a b : BitVec 32}

variable (h : ∀ pair : Unveiled, pair ∈ unveiled ∧ pair.1 <+: path ↔ pair ∈ unveiled' ∧ pair.1 <+: path')

include h

theorem LongestUnveiled.of_iff
    (ha : LongestUnveiled unveiled path a) : LongestUnveiled unveiled' path' a := by
  have hback : ∀ pair ∈ unveiled', pair.1 <+: path' → pair ∈ unveiled ∧ pair.1 <+: path :=
    fun pair hpair hp => (h pair).mpr ⟨hpair, hp⟩
  rcases ha with ⟨longest, hmem, hpre, hmax⟩ | ⟨ha, hnone⟩
  · obtain ⟨hmem', hpre'⟩ := (h _).mp ⟨hmem, hpre⟩
    exact .inl ⟨longest, hmem', hpre', fun other hother hp =>
      hmax other (hback other hother hp).1 (hback other hother hp).2⟩
  · exact .inr ⟨ha, fun other hother hp =>
      hnone other (hback other hother hp).1 (hback other hother hp).2⟩

/-- Only the unveiled paths that are prefixes count. -/
theorem longestUnveiled_congr :
    LongestUnveiled unveiled path a ↔ LongestUnveiled unveiled' path' a :=
  ⟨.of_iff h, .of_iff fun pair => (h pair).symm⟩

omit h

/-- The unveiled prefixes of a path that are not longer than `q` are prefixes of `q`. -/
theorem longestUnveiled_iff_of_length_le (hpre : q <+: path)
    (hlast : ∀ pair ∈ unveiled, pair.1 <+: path → pair.1.length ≤ q.length) :
    LongestUnveiled unveiled path a ↔ LongestUnveiled unveiled q a :=
  longestUnveiled_congr fun pair => and_congr_right fun hpair =>
    ⟨fun hp => prefix_of_prefix_length_le hp hpre (hlast pair hpair hp), fun hp => hp.trans hpre⟩

/-- The longest unveiled prefix is unique if no path is unveiled with two permissions. -/
theorem longestUnveiled_unique
    (hunique : ∀ q a b, (q, a) ∈ unveiled → (q, b) ∈ unveiled → a = b)
    (ha : LongestUnveiled unveiled path a) (hb : LongestUnveiled unveiled path b) : a = b := by
  rcases ha with ⟨q, hq, hqp, hqmax⟩ | ⟨ha, hanone⟩
  · rcases hb with ⟨r, hr, hrp, hrmax⟩ | ⟨hb, hbnone⟩
    · have hlength : q.length = r.length := le_antisymm (hrmax _ hq hqp) (hqmax _ hr hrp)
      have hqr : q = r := by
        rw [prefix_iff_eq_take.mp hqp, prefix_iff_eq_take.mp hrp, hlength]
      exact hunique q a b hq (hqr ▸ hr)
    · exact absurd hqp (hbnone _ hq)
  · rcases hb with ⟨r, hr, hrp, -⟩ | ⟨hb, -⟩
    · exact absurd hrp (hanone _ hr)
    · rw [ha, hb]

end LongestUnveiled

/-! ## The nodes of the veil -/

/-- How the nodes of the trie reflect what was unveiled. -/
structure NodesReflect (paths : UnveilNode) (unveiled : List Unveiled) : Prop where
  /-- The nodes that are marked as unveiled are those of the unveiled paths, with their permissions. -/
  mem_iff : ∀ q a, (q, a) ∈ unveiled ↔ ∃ metadata, paths.metadataAt q = some metadata ∧
    metadata.permissions = a ∧ metadata.explicitlyUnveiled = true
  /-- The paths of the nodes are canonical. -/
  proper : ∀ q, (paths.metadataAt q).isSome → ∀ part ∈ q, LexicalPath.Proper part
  /-- The root gives no permission of its own. -/
  root : paths.metadata.explicitlyUnveiled = true ∨ paths.metadata.permissions = UnveilAccess.none

/-- The permissions of every node are those of its longest unveiled prefix. -/
def NodesOk (paths : UnveilNode) (unveiled : List Unveiled) : Prop :=
  ∀ q metadata, paths.metadataAt q = some metadata → LongestUnveiled unveiled q metadata.permissions

/-- The nodes that were created on the way to a path have the permissions of their parents. -/
def Inherits (paths : UnveilNode) : Prop :=
  ∀ front name metadata, paths.metadataAt (front ++ [name]) = some metadata →
    metadata.explicitlyUnveiled = true ∨
      (paths.metadataAt front).map (·.permissions) = some metadata.permissions

namespace NodesReflect

variable {paths : UnveilNode} {unveiled : List Unveiled} {q : List Str} {a : BitVec 32}
  {metadata : UnveilMetadata}

section

variable (h : NodesReflect paths unveiled)

include h

theorem unique (q : List Str) (a b : BitVec 32) (ha : (q, a) ∈ unveiled) (hb : (q, b) ∈ unveiled) :
    a = b := by
  obtain ⟨m, hm, rfl, -⟩ := (h.mem_iff q a).mp ha
  obtain ⟨m', hm', rfl, -⟩ := (h.mem_iff q b).mp hb
  rw [hm, some.injEq] at hm'
  rw [hm']

/-- The last accessible node of a path has the unveiled prefixes of the path. -/
theorem longestUnveiled_iff_front {path front : List Str} (hfront : front <+: path)
    (hmax : ∀ longer, longer <+: path → front.length < longer.length →
      paths.metadataAt longer = none) :
    LongestUnveiled unveiled path a ↔ LongestUnveiled unveiled front a := by
  refine longestUnveiled_iff_of_length_le hfront fun pair hpair hpre => not_lt.mp fun hlt => ?_
  obtain ⟨m, hm, -⟩ := (h.mem_iff pair.1 pair.2).mp hpair
  rw [hmax pair.1 hpre hlt] at hm
  cases hm

/-- A node that is not marked has the unveiled prefixes of its parent. -/
theorem longestUnveiled_iff_parent {front : List Str} {name : Str}
    (hm : paths.metadataAt (front ++ [name]) = some metadata)
    (hexplicit : metadata.explicitlyUnveiled ≠ true) :
    LongestUnveiled unveiled (front ++ [name]) a ↔ LongestUnveiled unveiled front a := by
  refine longestUnveiled_iff_of_length_le (prefix_append _ _) fun pair hpair hpre => ?_
  rcases prefix_concat_iff.mp hpre with heq | hpre
  · obtain ⟨m, hm', -, hmarked⟩ := (h.mem_iff pair.1 pair.2).mp hpair
    rw [heq, hm, some.injEq] at hm'
    exact absurd (hm' ▸ hmarked) hexplicit
  · exact hpre.length_le

/-- A node that is marked has its own permissions. -/
theorem longestUnveiled_of_explicit (hm : paths.metadataAt q = some metadata)
    (hexplicit : metadata.explicitlyUnveiled = true) :
    LongestUnveiled unveiled q metadata.permissions :=
  .inl ⟨q, (h.mem_iff _ _).mpr ⟨metadata, hm, rfl, hexplicit⟩, prefix_refl _,
    fun _ _ hpre => hpre.length_le⟩

/-- The permissions of all nodes are as intended if and only if they are inherited where they should
be. -/
theorem nodesOk_iff_inherits : NodesOk paths unveiled ↔ Inherits paths := by
  constructor
  · intro hok front name m hm
    rw [or_iff_not_imp_left]
    intro hexplicit
    obtain ⟨parent, hparent⟩ := isSome_iff_exists.mp (paths.metadataAt_isSome_of_prefixed
      (isSome_of_eq_some hm) (prefix_append front [name]))
    rw [hparent, map_some, longestUnveiled_unique h.unique (hok front parent hparent)
      ((h.longestUnveiled_iff_parent hm hexplicit).mp (hok _ m hm))]
  · intro hinherits q
    induction q using List.reverseRecOn with
    | nil =>
      intro m hm
      by_cases hexplicit : m.explicitlyUnveiled = true
      · exact h.longestUnveiled_of_explicit hm hexplicit
      · obtain rfl := some.inj hm
        refine .inr ⟨h.root.resolve_left hexplicit, fun other hother hpre => ?_⟩
        obtain ⟨m, hm, -, hmarked⟩ := (h.mem_iff other.1 other.2).mp hother
        rw [prefix_nil.mp hpre] at hm
        exact hexplicit (some.inj hm ▸ hmarked)
    | append_singleton front name ih =>
      intro m hm
      by_cases hexplicit : m.explicitlyUnveiled = true
      · exact h.longestUnveiled_of_explicit hm hexplicit
      · obtain ⟨parent, hparent, heq⟩ := map_eq_some_iff.mp
          ((hinherits front name m hm).resolve_left hexplicit)
        rw [h.longestUnveiled_iff_parent hm hexplicit, ← heq]
        exact ih parent hparent

/-- Unveiling a path that was not unveiled before: what the trie then reflects. -/
theorem insert (hq : ∀ part ∈ q, LexicalPath.Proper part) (hfresh : q ∉ unveiled.map Prod.fst)
    (hexplicit : metadata.explicitlyUnveiled = true) :
    NodesReflect (paths.insert Process.provideMissingMetadata metadata q)
      (unveiled ++ [(q, metadata.permissions)]) where
  mem_iff r b := by
    rw [mem_append, mem_singleton, Prod.mk.injEq]
    constructor
    · rintro (hr | ⟨rfl, rfl⟩)
      · have hne : r ≠ q := fun heq => hfresh (heq ▸ List.mem_map_of_mem hr)
        obtain ⟨m, hm, hmarked⟩ := (h.mem_iff r b).mp hr
        refine ⟨m, ?_, hmarked⟩
        rw [paths.metadataAt_insert_of_isSome _ _ _ hne (by simp [hm]), hm]
      · exact ⟨metadata, paths.metadataAt_insert_self _ _ _, rfl, hexplicit⟩
    · rintro ⟨m, hm, rfl, hmarked⟩
      rcases paths.metadataAt_insert_cases _ _ _ hm with ⟨rfl, rfl⟩ | hold |
        ⟨-, before, value, parent, -, -, rfl⟩
      · exact .inr ⟨rfl, rfl⟩
      · exact .inl ((h.mem_iff r _).mpr ⟨m, hold, rfl, hmarked⟩)
      · -- a node created on the way is not marked
        cases hmarked
  proper r hr part hpart := by
    obtain ⟨m, hm⟩ := isSome_iff_exists.mp hr
    rcases paths.metadataAt_insert_cases _ _ _ hm with ⟨rfl, -⟩ | hold | ⟨hpre, -⟩
    · exact hq part hpart
    · exact h.proper r (isSome_of_eq_some hold) part hpart
    · exact hq part (hpre.subset hpart)
  root := by
    cases q with
    | nil => exact .inl hexplicit
    | cons part rest => simpa [Trie.insert_cons] using h.root

end

end NodesReflect

section Insert

variable {paths : UnveilNode} {q : List Str} {metadata : UnveilMetadata}

/-- The nodes still inherit their permissions after an insertion if and only if the children of the
path, which keep theirs, do: those that were created on the way have the permissions that the path had
before. -/
theorem inherits_insert_iff (hinherits : Inherits paths)
    (hexplicit : metadata.explicitlyUnveiled = true) :
    Inherits (paths.insert Process.provideMissingMetadata metadata q) ↔
      ∀ name m, paths.metadataAt (q ++ [name]) = some m → m.explicitlyUnveiled = true ∨
        (paths.metadataAt q).map (·.permissions) = some metadata.permissions := by
  constructor
  · intro hinsert name m hm
    have hchild := (paths.metadataAt_insert_of_isSome metadata q Process.provideMissingMetadata
      (by simp) (isSome_of_eq_some hm)).trans hm
    rcases hinsert q name m hchild with hmarked | hsame
    · exact .inl hmarked
    · rw [paths.metadataAt_insert_self, map_some] at hsame
      rw [hsame]
      exact hinherits q name m hm
  · intro hcond front name m hm
    rcases paths.metadataAt_insert_cases _ _ _ hm with ⟨-, rfl⟩ | hold |
      ⟨-, before, value, parent, heq, hparent, rfl⟩
    · exact .inl hexplicit
    · by_cases hfront : front = q
      · subst hfront
        rcases hcond name m hold with hmarked | hsame
        · exact .inl hmarked
        · rw [paths.metadataAt_insert_self, map_some, ← hsame]
          exact hinherits front name m hold
      · rw [paths.metadataAt_insert_of_isSome _ _ _ hfront (paths.metadataAt_isSome_of_prefixed
          (isSome_of_eq_some hold) (prefix_append _ _))]
        exact hinherits front name m hold
    · obtain ⟨rfl, -⟩ := append_inj' heq rfl
      exact .inr (by rw [hparent]; rfl)

/-- The trie stays without children only if the root is unveiled. -/
theorem isEmpty_insert_iff :
    (paths.insert Process.provideMissingMetadata metadata q).isEmpty = true ↔
      q = [] ∧ paths.isEmpty = true := by
  cases q with
  | nil => simp [Trie.isEmpty, Trie.setMetadata, Trie.children]
  | cons part rest =>
    rw [Trie.insert_cons]
    simp [Trie.isEmpty, Trie.setChild, Trie.children]

end Insert

namespace Veil

variable {self next : Veil} {call : UnveilCall}

/-- What the veil gives for a canonical path, once the root has children. -/
theorem permissionsFor_absolutePath (process : Process) {path : List Str}
    (hpath : ∀ part ∈ path, LexicalPath.Proper part) :
    process.permissionsFor (LexicalPath.absolutePath path) =
      if process.unveiledPaths.isEmpty then UnveilAccess.none
      else (process.unveiledPaths.traverseUntilLastAccessibleNode path).1.metadata.permissions := by
  unfold Process.permissionsFor Process.findMatchingUnveiledPath
  rw [LexicalPath.parts_absolutePath hpath]
  by_cases h : process.unveiledPaths.isEmpty <;> simp [h, UnveilNode.permissions]

/-- The veil is as intended if the permissions of its nodes are inherited, and if a root without children
gives no permission. -/
theorem veilOk_iff_inherits (h : NodesReflect self.process.unveiledPaths self.unveiled) :
    self.VeilOk ↔ Inherits self.process.unveiledPaths ∧
      (self.process.unveiledPaths.isEmpty = true →
        ∀ pair ∈ self.unveiled, pair.2 = UnveilAccess.none) := by
  set paths := self.process.unveiledPaths with hpaths
  rw [← h.nodesOk_iff_inherits]
  by_cases hempty : paths.isEmpty = true
  · -- the root is the only node, so that the root is the only path that can have been unveiled
    have hnil : ∀ pair ∈ self.unveiled, pair.1 = [] := by
      intro pair hpair
      obtain ⟨m, hm, -⟩ := (h.mem_iff pair.1 pair.2).mp hpair
      exact paths.eq_nil_of_isEmpty hempty (isSome_of_eq_some hm)
    have hnodes : NodesOk paths self.unveiled := by
      refine h.nodesOk_iff_inherits.mpr fun front name m hm => ?_
      have := paths.eq_nil_of_isEmpty hempty (isSome_of_eq_some hm)
      simp at this
    refine ⟨fun hok => ⟨hnodes, fun _ pair hpair => ?_⟩, fun hok path hpath => ?_⟩
    · have hzero := hok [] (by simp)
      rw [permissionsFor_absolutePath _ (by simp), ← hpaths, if_pos hempty] at hzero
      refine longestUnveiled_unique h.unique (.inl ⟨pair.1, hpair, ?_, fun other hother _ => ?_⟩) hzero
      · rw [hnil pair hpair]
      · rw [hnil pair hpair, hnil other hother]
    · rw [permissionsFor_absolutePath _ hpath, ← hpaths, if_pos hempty,
        longestUnveiled_iff_of_length_le nil_prefix fun pair hpair _ => by simp [hnil pair hpair]]
      rcases hnodes [] _ rfl with ⟨longest, hmem, hlongest⟩ | ⟨-, hnone⟩
      · exact .inl ⟨longest, hok.2 hempty _ hmem ▸ hmem, hlongest⟩
      · exact .inr ⟨rfl, hnone⟩
  · have hgive : ∀ path : List Str, (∀ part ∈ path, LexicalPath.Proper part) →
        self.process.permissionsFor (LexicalPath.absolutePath path) =
          (paths.traverseUntilLastAccessibleNode path).1.metadata.permissions := by
      intro path hpath
      rw [permissionsFor_absolutePath _ hpath, ← hpaths, if_neg hempty]
    refine ⟨fun hok => ⟨fun q m hm => ?_, fun he => absurd he hempty⟩, fun hok path hpath => ?_⟩
    · have hproper := h.proper q (isSome_of_eq_some hm)
      have hq := hok q hproper
      rwa [hgive q hproper, paths.metadata_traverse_of_metadataAt q hm] at hq
    · obtain ⟨front, hsplit, hfront, hmax⟩ := paths.traverseUntilLastAccessibleNode_spec path
      have hpre : front <+: path := ⟨_, hsplit.symm⟩
      rw [hgive path hpath, h.longestUnveiled_iff_front hpre hmax]
      exact hok.1 front _ hfront

/-! ## Runs -/

/-- The path that a call unveils is absolute. -/
theorem isAbsolute_of_newUnveiledPath {process : Process} {vfs : VFS} {path newPath : Str}
    {permissions : BitVec 32}
    (h : process.newUnveiledPath vfs path permissions = .ok newPath) :
    LexicalPath.isAbsolute newPath = true := by
  have habsolute : ∀ (custody : Custody) (rest : Str),
      LexicalPath.isAbsolute (custody.absolutePath ++ rest) = true := by
    intro custody rest
    unfold Custody.absolutePath LexicalPath.absolutePath LexicalPath.isAbsolute
    cases custody.components <;> simp
  unfold Process.newUnveiledPath at h
  simp only at h
  split at h
  next custody _ =>
    obtain rfl := Except.ok.inj h
    simpa using habsolute custody []
  next =>
    split at h
    next => cases h
    next parentCustody _ =>
      split at h
      · obtain rfl := Except.ok.inj h
        exact habsolute parentCustody _
      · cases h

/-- A request names a path that was found, and both of its arguments. -/
theorem newUnveiledPath_of_unveilRequest {process : Process} {vfs : VFS} {params : UnveilParams}
    {newPath : Str} {permissions : BitVec 32}
    (h : process.unveilRequest vfs params = .ok (newPath, permissions)) :
    params.path ≠ .null ∧
      ∃ path, process.newUnveiledPath vfs path permissions = .ok newPath := by
  unfold Process.unveilRequest at h
  split at h
  · cases h
  · split at h
    next pathLength copiedPath permissionsLength copiedPermissions hpath hpermissions =>
      split at h
      · cases h
      · refine ⟨by simp [hpath], ?_⟩
        obtain ⟨path, -, h⟩ := Except.bind_eq_ok.mp h
        split at h
        · cases h
        · split at h
          · cases h
          · obtain ⟨newPermissions, -, h⟩ := Except.bind_eq_ok.mp h
            obtain ⟨newUnveiledPath, hnew, h⟩ := Except.bind_eq_ok.mp h
            obtain ⟨rfl, rfl⟩ := Prod.mk.inj (Except.ok.inj h)
            exact ⟨path, hnew⟩
    next => cases h

/-- What a call unveils is a canonical path. -/
theorem proper_of_request {pair : Unveiled} (h : self.request call = some pair) :
    ∀ part ∈ pair.1, LexicalPath.Proper part := by
  unfold request at h
  split at h
  next => cases h
  next path permissions hrequest =>
    obtain rfl := some.inj h
    obtain ⟨-, userPath, hpath⟩ := newUnveiledPath_of_unveilRequest hrequest
    exact fun part hpart =>
      LexicalPath.proper_of_mem_parts (isAbsolute_of_newUnveiledPath hpath) hpart

/-- A call that succeeds inserts its path into the trie. -/
theorem unveiledPaths_of_unveilPath {process process' : Process} {path : Str}
    {permissions : BitVec 32}
    (h : process.unveilPath path permissions = some (.ok (), process')) :
    ∃ metadata : UnveilMetadata, metadata.permissions = permissions ∧
      metadata.explicitlyUnveiled = true ∧
      process'.unveiledPaths = process.unveiledPaths.insert Process.provideMissingMetadata metadata
        (LexicalPath.parts path) := by
  unfold Process.unveilPath at h
  simp only at h
  split at h
  next hend =>
    split at h
    · simp at h
    · obtain ⟨-, rfl⟩ := Prod.mk.inj (some.inj h)
      exact ⟨⟨_, permissions, true, false⟩, rfl, rfl,
        Trie.modifyLastAccessibleNode_setMetadata _ _ _ _
          ((Trie.traverse_snd_eq_nil_iff _ _).mp hend)⟩
  next =>
    rw [verify_bind_eq_some] at h
    obtain ⟨-, rfl⟩ := Prod.mk.inj (some.inj h.2)
    exact ⟨⟨path, permissions, true, false⟩, rfl, rfl, Trie.modifyLastAccessibleNode_insert _ _ _ _⟩

/-- What a step does. -/
theorem step_eq_some (h : self.step call = some next) :
    ∃ pair metadata, self.request call = some pair ∧ pair.1 ∉ self.unveiled.map Prod.fst ∧
      next.unveiled = self.unveiled ++ [pair] ∧ metadata.permissions = pair.2 ∧
      metadata.explicitlyUnveiled = true ∧
      next.process.unveiledPaths =
        self.process.unveiledPaths.insert Process.provideMissingMetadata metadata pair.1 := by
  unfold step at h
  split at h
  next pair process hrequest hsys =>
    split at h
    next => cases h
    next hfresh =>
      obtain rfl := some.inj h
      unfold request at hrequest
      split at hrequest
      next => cases hrequest
      next path permissions hok =>
        obtain rfl := some.inj hrequest
        have hpath := (newUnveiledPath_of_unveilRequest hok).1
        rw [Process.sysUnveil, if_neg (by simp [hpath]), hok] at hsys
        obtain ⟨metadata, hpermissions, hexplicit, hpaths⟩ := unveiledPaths_of_unveilPath hsys
        exact ⟨_, metadata, by simp [request, hok], hfresh, rfl, hpermissions, hexplicit, hpaths⟩
  next => cases h

/-- The invariant of the runs whose calls meet the condition. -/
def Inv (self : Veil) : Prop :=
  NodesReflect self.process.unveiledPaths self.unveiled ∧ self.VeilOk

/-- A call keeps the veil as intended if and only if it meets the condition. -/
theorem veilOk_step_iff (hinv : self.Inv) (h : self.step call = some next) :
    NodesReflect next.process.unveiledPaths next.unveiled ∧ (next.VeilOk ↔ self.StepOk call) := by
  obtain ⟨hreflect, hok⟩ := hinv
  obtain ⟨⟨q, a⟩, metadata, hrequest, hfresh, hunveiled, rfl, hexplicit, hpaths⟩ := step_eq_some h
  obtain ⟨hinherits, hzero⟩ := (veilOk_iff_inherits hreflect).mp hok
  have hnext : NodesReflect next.process.unveiledPaths next.unveiled := by
    rw [hpaths, hunveiled]
    exact hreflect.insert (proper_of_request hrequest) hfresh hexplicit
  refine ⟨hnext, ?_⟩
  rw [veilOk_iff_inherits hnext, hpaths, hunveiled, isEmpty_insert_iff,
    inherits_insert_iff hinherits hexplicit]
  constructor
  · rintro ⟨hcond, hempty⟩ pair hpair
    obtain rfl := some.inj (hrequest.symm.trans hpair)
    exact ⟨hcond, fun hroot hnone => hempty ⟨hroot, hnone⟩ _ (by simp)⟩
  · intro hstep
    obtain ⟨hcond, hroot⟩ := hstep _ hrequest
    refine ⟨hcond, ?_⟩
    rintro ⟨hnil, hempty⟩
    exact forall_mem_append.mpr ⟨hzero hempty, forall_mem_singleton.mpr (hroot hnil hempty)⟩

/-- A path that has no node yet can be unveiled at any time. -/
theorem stepOk_of_no_node
    (h : ∀ pair ∈ self.request call, self.process.unveiledPaths.metadataAt pair.1 = none) :
    self.StepOk call := by
  intro pair hpair
  have hnode := h pair hpair
  refine ⟨fun name m hm => ?_, fun hroot => ?_⟩
  · have hparent := self.process.unveiledPaths.metadataAt_isSome_of_prefixed
      (isSome_of_eq_some hm) (prefix_append pair.1 [name])
    simp [hnode] at hparent
  · rw [hroot] at hnode
    exact absurd hnode (by simp)

/-- A process that has not unveiled anything. -/
def fresh (credentials : Credentials) (rootDirectory : Custody) : Veil :=
  { process := { credentials := credentials, rootDirectory := rootDirectory } }

theorem inv_fresh (credentials : Credentials) (rootDirectory : Custody) :
    (fresh credentials rootDirectory).Inv := by
  have hnode : ∀ q m, (fresh credentials rootDirectory).process.unveiledPaths.metadataAt q = some m →
      q = [] ∧ m = UnveilNode.initial.metadata := by
    rintro (_ | ⟨part, rest⟩) m hm
    · exact ⟨rfl, (some.inj hm).symm⟩
    · cases hm
  have hreflect : NodesReflect (fresh credentials rootDirectory).process.unveiledPaths
      (fresh credentials rootDirectory).unveiled := by
    refine ⟨fun q a => ?_, fun q hq => ?_, .inr rfl⟩
    · refine iff_of_false not_mem_nil ?_
      rintro ⟨m, hm, -, hmarked⟩
      obtain ⟨-, rfl⟩ := hnode q m hm
      cases hmarked
    · obtain ⟨m, hm⟩ := isSome_iff_exists.mp hq
      simp [(hnode q m hm).1]
  refine ⟨hreflect, (veilOk_iff_inherits hreflect).mpr ⟨fun front name m hm => ?_, by simp [fresh]⟩⟩
  simpa using (hnode _ m hm).1

/-- A file system with the directories `/a`, `/a/b` and `/a/b/c`. -/
def nestedDirectories : VFS where
  inodes inode :=
    { fs := 0
      metadata := ⟨sIfdir ||| 0o755, 0, 0⟩
      children :=
        if inode = 0 then [(['a'], 1)] else if inode = 1 then [(['b'], 2)]
        else if inode = 2 then [(['c'], 3)] else [] }
  nextInode := 4
  readonly _ := false
  mounts := []

/-- The superuser, who has not unveiled anything. -/
def superuser : Veil := fresh { euid := 0, egid := 0 } (.root 0 0)

/-- A call with the given texts. -/
def unveilCall (path permissions : Str) : UnveilCall where
  vfs := nestedDirectories
  params := ⟨.characters path.length (some path), .characters permissions.length (some permissions)⟩

/-- `unveil("/a/b/c", "r")`. -/
def unveilNested : UnveilCall := unveilCall ['/', 'a', '/', 'b', '/', 'c'] ['r']

/-- `unveil("/a", "w")`. -/
def unveilDirectory : UnveilCall := unveilCall ['/', 'a'] ['w']

/-- **The veil.** Let a process unveil distinct paths, and let all calls succeed. After each call the
veil gives every canonical absolute path the permissions of its longest unveiled prefix, and none if
there is no such prefix, if and only if every call meets the condition `StepOk`. Two such runs that
unveil the same paths with the same permissions, in any order, give every path the same
permissions. -/
theorem veilOk_iff_meets {credentials : Credentials} {rootDirectory : Custody}
    {calls : List UnveilCall} {final : Veil}
    (hrun : run step (fresh credentials rootDirectory) calls = some final) :
    ((∀ before, before <+: calls → ∀ reached,
        run step (fresh credentials rootDirectory) before = some reached → reached.VeilOk) ↔
      Meets step StepOk (fresh credentials rootDirectory) calls) ∧
    (Meets step StepOk (fresh credentials rootDirectory) calls →
      ∀ calls' final', run step (fresh credentials rootDirectory) calls' = some final' →
        Meets step StepOk (fresh credentials rootDirectory) calls' →
        (∀ pair, pair ∈ final.unveiled ↔ pair ∈ final'.unveiled) →
        ∀ path : List Str, (∀ part ∈ path, LexicalPath.Proper part) →
          final.process.permissionsFor (LexicalPath.absolutePath path) =
            final'.process.permissionsFor (LexicalPath.absolutePath path)) := by
  have hkeep : ∀ (s : Veil) (call : UnveilCall) (s' : Veil), s.Inv → s.StepOk call →
      s.step call = some s' → s'.Inv := by
    intro s call s' hinv hcond hstep
    obtain ⟨hreflect, hiff⟩ := veilOk_step_iff hinv hstep
    exact ⟨hreflect, hiff.mpr hcond⟩
  have hinit := inv_fresh credentials rootDirectory
  refine ⟨forall_prefix_iff_meets (fun s hinv => hinv.2) hkeep
    (fun s call s' hinv hstep hok => (veilOk_step_iff hinv hstep).2.mp hok) hinit hrun, ?_⟩
  intro hmeets calls' final' hrun' hmeets' hsame path hpath
  obtain ⟨hreflect, hok⟩ := run_induction hkeep hinit hmeets hrun
  obtain ⟨-, hok'⟩ := run_induction hkeep hinit hmeets' hrun'
  refine longestUnveiled_unique hreflect.unique (hok path hpath) ?_
  exact (hok' path hpath).of_iff fun pair => and_congr_left' (hsame pair).symm

/-- The directory first, and then a path in it. -/
theorem veilOk_iff_meets_directory_first :
    ∃ final, run step superuser [unveilDirectory, unveilNested] = some final ∧
      Meets step StepOk superuser [unveilDirectory, unveilNested] ∧ final.VeilOk := by
  have hsome : (run step superuser [unveilDirectory, unveilNested]).isSome := by decide +kernel
  obtain ⟨final, hrun⟩ := isSome_iff_exists.mp hsome
  have hnode : Meets step (fun s call => ∀ pair ∈ s.request call,
      s.process.unveiledPaths.metadataAt pair.1 = none) superuser
      [unveilDirectory, unveilNested] := by decide +kernel
  have hmeets := hnode.imp fun s call h => stepOk_of_no_node h
  exact ⟨final, hrun, hmeets, (veilOk_iff_meets hrun).1.mpr hmeets _ (prefix_refl _) final hrun⟩

/-- After `unveil("/a/b/c", "r")` and `unveil("/a", "w")` nothing may be done with `/a/b/x`, though
`/a` is its longest unveiled prefix. In the other order it may be written. -/
theorem veil_depends_on_order :
    ∃ final final', run step superuser [unveilNested, unveilDirectory] = some final ∧
      run step superuser [unveilDirectory, unveilNested] = some final' ∧
      LongestUnveiled final.unveiled [['a'], ['b'], ['x']] UnveilAccess.write ∧
      final.process.permissionsFor ['/', 'a', '/', 'b', '/', 'x'] = UnveilAccess.none ∧
      final'.process.permissionsFor ['/', 'a', '/', 'b', '/', 'x'] = UnveilAccess.write := by
  have hfirst : (run step superuser [unveilNested, unveilDirectory]).map (fun final =>
      (final.unveiled, final.process.permissionsFor ['/', 'a', '/', 'b', '/', 'x'])) =
      some ([([['a'], ['b'], ['c']], UnveilAccess.read), ([['a']], UnveilAccess.write)],
        UnveilAccess.none) := by decide +kernel
  have hsecond : (run step superuser [unveilDirectory, unveilNested]).map (fun final =>
      final.process.permissionsFor ['/', 'a', '/', 'b', '/', 'x']) =
      some UnveilAccess.write := by decide +kernel
  obtain ⟨final, hrun, hfinal⟩ := map_eq_some_iff.mp hfirst
  obtain ⟨hunveiled, hnone⟩ := Prod.mk.inj hfinal
  obtain ⟨final', hrun', hwrite⟩ := map_eq_some_iff.mp hsecond
  refine ⟨final, final', hrun, hrun', ?_, hnone, hwrite⟩
  rw [hunveiled]
  refine .inl ⟨[['a']], by simp, ⟨[['b'], ['x']], rfl⟩, ?_⟩
  simp only [mem_cons, not_mem_nil, or_false, forall_eq_or_imp, forall_eq]
  exact ⟨fun h => absurd h (by decide), fun _ => le_refl _⟩

end Veil

end Kernel
