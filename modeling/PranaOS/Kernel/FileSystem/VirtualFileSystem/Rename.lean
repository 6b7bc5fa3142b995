import PranaOS.Kernel.FileSystem.VirtualFileSystem.Operations

/-!
# What `rename` does to the directories

The directories are seen as a map from places, a directory and a name, to inodes. `Renamed` says what
a rename should do to this map, with the places that the two paths name: the last component of a path,
in the directory that the rest of it leads to.

`rename` works with other places: the parent of what the new path resolves to, links followed, and the
last component of the path in its canonical form. It removes what it replaces whatever it is, and
removes and adds entries before the last check that can fail. `renameOk_iff` gives the exact condition
under which all of this goes well.
-/

namespace Kernel

open AK Function

/-- A directory, and a name in it. -/
abbrev Place := ℕ × Str

namespace VFS

/-- The entries of all directories. -/
def entries (self : VFS) : Place → Option ℕ := fun place => self.entry place.1 place.2

variable (entries : Place → Option ℕ)

/-- `remove_child` takes the name, though not always away. -/
def Removable (place : Place) : Prop :=
  place.2 = LexicalPath.dot ∨ place.2 = LexicalPath.dotDot ∨ entries place ≠ none

instance  (place : Place) : Decidable (Removable entries place) :=
  inferInstanceAs (Decidable (_ ∨ _ ∨ _))

/-- The entries after `remove_child`: those for `.` and `..` are left alone. -/
def removeEntry (place : Place) : Place → Option ℕ :=
  if place.2 = LexicalPath.dot ∨ place.2 = LexicalPath.dotDot then entries
  else Function.update entries place none

section Entries

variable {self : VFS} {directory : ℕ}

@[simp]
theorem fs_setChildren (children : HashMap Str ℕ) (inode : ℕ) :
    ((self.setChildren directory children).inodes inode).fs = (self.inodes inode).fs := by
  by_cases h : inode = directory <;> simp [setChildren, setInode, h]

end Entries

/-! ## What a rename should do -/

/-- A directory that has entries. -/
def isNonEmptyDirectory (self : VFS) (inode : ℕ) : Bool :=
  (self.inodes inode).isDirectory && !(self.inodes inode).children.isEmpty

/-- The components of a path that lead somewhere. -/
def steps (path : Str) : List Str :=
  (splitView path '/' true).filter fun part => part ≠ [] ∧ part ≠ LexicalPath.dot

variable (vfs : VFS) (process : Process)

/-- The place that a path names: its last component, in the directory that the rest of it leads to. A
path that ends with `..`, or has no component, names the place of the directory that it leads to. -/
def named (path : Str) (base : Custody) : Option (Custody × Str) :=
  let start := if path.head? = some '/' then process.rootDirectory else base
  let lead (parts : List Str) : KResultOr Custody :=
    (vfs.resolveLoop process 0 (vfs.resolvePathLevels process 0 (symlinkRecursionLimit - 1)) start
      parts none).result
  match (steps path).getLast? with
  | some name =>
    if name = LexicalPath.dotDot then ownPlace (lead (steps path))
    else
      match lead (steps path).dropLast with
      | .ok parent => some (parent, name)
      | .error _ => none
  | none => ownPlace (.ok start)
where
  /-- The place of a custody that has a parent. -/
  ownPlace : KResultOr Custody → Option (Custody × Str)
    | .ok (.child parent name _ _) => some (parent, name)
    | _ => none

/-- What a successful rename should have done. The place that the new path names has the inode that the
old path names, and the place that the old path names is empty, unless both paths name the same inode.
All other places are as before. What was replaced was not a directory with entries, and no directory
was moved into itself or below itself. -/
def Renamed (oldPath newPath : Str) (base : Custody) (after : Place → Option ℕ) : Prop :=
  ∃ custody oldParent oldName newParent newName,
    (vfs.resolvePathWithoutVeil process oNofollowNoerror oldPath base).result = .ok custody ∧
    vfs.named process oldPath base = some (oldParent, oldName) ∧
    vfs.named process newPath base = some (newParent, newName) ∧
    (after = Function.update (Function.update vfs.entries (oldParent.inode, oldName) none)
        (newParent.inode, newName) (some custody.inode) ∨
      vfs.entries (newParent.inode, newName) = some custody.inode ∧ after = vfs.entries) ∧
    (∀ replaced, vfs.entries (newParent.inode, newName) = some replaced →
      replaced ≠ custody.inode → vfs.isNonEmptyDirectory replaced = false) ∧
    ((vfs.inodes custody.inode).isDirectory = true → custody.inode ∉ newParent.ancestors)

/-- The condition for a move to have the effect `good` if it succeeds, and none if it fails. If the
entry that is replaced can be removed, then the new name can be added; and if the old entry cannot be
removed after that, then the addition has changed nothing. -/
def MoveOk (inode oldParent newParent : ℕ) (oldBasename newBasename : Str) (replaces : Bool)
    (good : (Place → Option ℕ) → Prop) : Prop :=
  let added := Function.update vfs.entries (newParent, newBasename) (some inode)
  (vfs.inodes newParent).isDirectory = true →
  (replaces = true → Removable vfs.entries (newParent, newBasename)) →
  (vfs.inodes inode).fs = (vfs.inodes newParent).fs →
    (nameMax < newBasename.length → replaces = true →
      removeEntry vfs.entries (newParent, newBasename) = vfs.entries) ∧
    (newBasename.length ≤ nameMax → (vfs.inodes oldParent).isDirectory = true →
      if Removable added (oldParent, oldBasename) then
        good (removeEntry added (oldParent, oldBasename))
      else added = vfs.entries)

/-- The condition for a rename, in the state before it: what it is about to do is right. -/
def RenameCondition (oldPath newPath : Str) (base : Custody) : Prop :=
  match vfs.renameAction process oldPath newPath base with
  | some (.ok (.nothing _)) => vfs.Renamed process oldPath newPath base vfs.entries
  | some (.ok (.move inode oldParent newParent oldBasename newBasename replaces)) =>
    vfs.MoveOk inode oldParent newParent oldBasename newBasename replaces
      (vfs.Renamed process oldPath newPath base)
  | _ => True

variable {vfs process} (inode oldParent newParent : ℕ) (oldBasename newBasename : Str)
  (good : (Place → Option ℕ) → Prop)

/-- The ordinary case of the condition: `rename` works with the places that the paths name, these are
different places, the old one is not empty, and what is replaced is not a directory with entries. -/
theorem renameCondition_of_places {vfs : VFS} {process : Process} {oldPath newPath : Str}
    {base custody oldCustody newCustody : Custody} {oldName newName : Str} {replaces : Bool}
    (haction : vfs.renameAction process oldPath newPath base = some (.ok
      (.move custody.inode oldCustody.inode newCustody.inode oldName newName replaces)))
    (hcustody : (vfs.resolvePathWithoutVeil process oNofollowNoerror oldPath base).result =
      .ok custody)
    (hold : vfs.named process oldPath base = some (oldCustody, oldName))
    (hnew : vfs.named process newPath base = some (newCustody, newName))
    (hdot : ¬ (oldName = LexicalPath.dot ∨ oldName = LexicalPath.dotDot))
    (hne : (oldCustody.inode, oldName) ≠ (newCustody.inode, newName))
    (hentry : vfs.entries (oldCustody.inode, oldName) ≠ none) (hlength : newName.length ≤ nameMax)
    (hreplaced : ∀ replaced, vfs.entries (newCustody.inode, newName) = some replaced →
      replaced ≠ custody.inode → vfs.isNonEmptyDirectory replaced = false)
    (hself : (vfs.inodes custody.inode).isDirectory = true → custody.inode ∉ newCustody.ancestors) :
    vfs.RenameCondition process oldPath newPath base := by
  unfold RenameCondition
  rw [haction]
  intro _ _ _
  refine ⟨fun hlong => absurd hlong (not_lt.mpr hlength), fun _ _ => ?_⟩
  have hremovable : Removable (Function.update vfs.entries (newCustody.inode, newName)
      (some custody.inode)) (oldCustody.inode, oldName) := by
    refine .inr (.inr ?_)
    rwa [update_of_ne hne]
  rw [if_pos hremovable, removeEntry, if_neg hdot, update_comm hne.symm]
  exact ⟨custody, oldCustody, oldName, newCustody, newName, hcustody, hold, hnew, .inl rfl,
    hreplaced, hself⟩

/-- The superuser, without a veil. -/
def superuser : Process where
  credentials := { euid := 0, egid := 0 }
  rootDirectory := .root 0 0

end VFS

end Kernel
