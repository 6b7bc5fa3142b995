import PranaOS.AK.LexicalPath
import PranaOS.AK.Trie

/-!
# `Kernel/UnveilNode.h`

The paths that a process has unveiled, as a trie over the components of paths, and the state of its
veil.
-/

namespace Kernel

open AK

namespace UnveilAccess

/-- `UnveilAccess::Read`. -/
def read : BitVec 32 := 1
/-- `UnveilAccess::Write`. -/
def write : BitVec 32 := 2
/-- `UnveilAccess::Execute`. -/
def execute : BitVec 32 := 4
/-- `UnveilAccess::CreateOrRemove`. -/
def createOrRemove : BitVec 32 := 8
/-- `UnveilAccess::Browse`. -/
def browse : BitVec 32 := 16
/-- `UnveilAccess::None`. -/
def none : BitVec 32 := 0

end UnveilAccess

/-- `UnveilMetadata`. -/
structure UnveilMetadata where
  /-- `full_path`. -/
  fullPath : Str
  /-- `permissions`. -/
  permissions : BitVec 32 := UnveilAccess.none
  /-- `explicitly_unveiled`. -/
  explicitlyUnveiled : Bool := false
  /-- `unveil_inherited_from_root`. -/
  unveilInheritedFromRoot : Bool := false
deriving DecidableEq, Repr

/-- `UnveilNode`. -/
abbrev UnveilNode := Trie Str UnveilMetadata

namespace UnveilNode

/-- The node with which `m_unveiled_paths` starts. -/
def initial : UnveilNode := .node { fullPath := ['/'], unveilInheritedFromRoot := true } []

/-- `permissions`. -/
def permissions (self : UnveilNode) : BitVec 32 := (Trie.metadata self).permissions

variable (self : UnveilNode)

/-- `permissions_inherited_from_root`. -/
def permissionsInheritedFromRoot : Bool :=
  (Trie.metadata self).unveilInheritedFromRoot

/-- `was_explicitly_unveiled`. -/
def wasExplicitlyUnveiled : Bool := (Trie.metadata self).explicitlyUnveiled

/-- `path`. -/
def path : Str := (Trie.metadata self).fullPath

end UnveilNode

/-- `VeilState`. -/
inductive VeilState where
  | none
  | dropped
  | locked
deriving DecidableEq, Repr

end Kernel
