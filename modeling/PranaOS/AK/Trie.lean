import PranaOS.AK.HashMap
import Mathlib.Tactic

/-!
# `AK/Trie`

A trie with a metadata value at every node. The functions of the source that return a reference to a
node below, which the caller then changes, are given the change (`modifyLastAccessibleNode`).

What a trie stands for is the metadata that it has at each path (`metadataAt`). The traversal reaches
the longest prefix with metadata (`traverseUntilLastAccessibleNode_spec`), and an insertion sets the
metadata of its path and provides that of the missing nodes on the way (`metadataAt_insert_self`,
`metadataAt_insert_of_isSome`, `metadataAt_insert_cases`).
-/

namespace AK

open Option List

/-- `Trie`. The value of a node is the key under which its parent has it. -/
inductive Trie (α μ : Type) where
  | node (metadata : μ) (children : List (α × Trie α μ))

namespace Trie

variable {α μ : Type}

/-- `metadata_value`. -/
def metadata : Trie α μ → μ
  | node metadata _ => metadata

/-- `m_children`. -/
def children : Trie α μ → HashMap α (Trie α μ)
  | node _ children => children

/-- `set_metadata`. -/
def setMetadata (self : Trie α μ) (metadata : μ) : Trie α μ := node metadata self.children

/-- `is_empty`. -/
def isEmpty (self : Trie α μ) : Bool := self.children.isEmpty

variable [DecidableEq α]

/-- `m_children.find`. -/
def child (self : Trie α μ) (value : α) : Option (Trie α μ) := HashMap.find self.children value

/-- `m_children.set`. -/
def setChild (self : Trie α μ) (value : α) (child : Trie α μ) : Trie α μ :=
  node self.metadata (HashMap.set self.children value child)

/-- `traverse_until_last_accessible_node`: the node and the rest of the path at which the iterator
stops. -/
def traverseUntilLastAccessibleNode : Trie α μ → List α → Trie α μ × List α
  | self, [] => (self, [])
  | self, value :: rest =>
    match self.child value with
    | none => (self, value :: rest)
    | some next => traverseUntilLastAccessibleNode next rest

/-- The trie after a change of the node that `traverse_until_last_accessible_node` returns. -/
def modifyLastAccessibleNode (change : Trie α μ → List α → Trie α μ) :
    Trie α μ → List α → Trie α μ
  | self, [] => change self []
  | self, value :: rest =>
    match self.child value with
    | none => change self (value :: rest)
    | some next => self.setChild value (modifyLastAccessibleNode change next rest)

/-- The node that `ensure_child` returns. -/
def ensureChild (self : Trie α μ) (value : α) (metadata : μ) : Trie α μ :=
  match self.child value with
  | none => node metadata []
  | some child => child.setMetadata metadata

/-- The loop of `insert` over the missing nodes, and the metadata set at its end. -/
def insertLoop (provideMissingMetadata : μ → α → μ) (metadata : μ) : Trie α μ → List α → Trie α μ
  | self, [] => self.setMetadata metadata
  | self, value :: rest =>
    self.setChild value (insertLoop provideMissingMetadata metadata
      (self.ensureChild value (provideMissingMetadata self.metadata value)) rest)

/-- `insert`. -/
def insert (provideMissingMetadata : μ → α → μ) (metadata : μ) (self : Trie α μ) (path : List α) :
    Trie α μ :=
  self.modifyLastAccessibleNode (insertLoop provideMissingMetadata metadata) path

/-! ## The metadata at a path -/

/-- The metadata of the node at a path. -/
def metadataAt : Trie α μ → List α → Option μ
  | self, [] => some self.metadata
  | self, value :: rest => (self.child value).bind fun next => next.metadataAt rest

variable (self next : Trie α μ) (value value' : α) (m : μ) (path front : List α)

@[simp]
theorem child_setMetadata : (self.setMetadata m).child value = self.child value := rfl

@[simp]
theorem metadata_setChild : (self.setChild value next).metadata = self.metadata := rfl

theorem child_setChild :
    (self.setChild value next).child value' =
      if value = value' then some next else self.child value' :=
  HashMap.find_set _ _ _ _

@[simp]
theorem metadataAt_nil : self.metadataAt [] = some self.metadata := rfl

theorem metadataAt_cons :
    self.metadataAt (value :: path) = (self.child value).bind fun next => next.metadataAt path := rfl

/-- Every prefix of a path with metadata has metadata. -/
theorem metadataAt_isSome_of_prefixed {front path : List α}
    (h : (self.metadataAt path).isSome) (hpre : front <+: path) :
    (self.metadataAt front).isSome := by
  induction front generalizing self path with
  | nil => simp
  | cons value front ih =>
    obtain ⟨rest, rfl, hrest⟩ := cons_prefix_iff.mp hpre
    rw [metadataAt_cons] at h ⊢
    cases hchild : self.child value with
    | none => simp [hchild] at h
    | some next =>
      rw [hchild] at h
      exact ih next h hrest

/-- A trie without children has metadata at the empty path only. -/
theorem eq_nil_of_isEmpty (h : self.isEmpty = true) {path : List α}
    (hpath : (self.metadataAt path).isSome) : path = [] := by
  cases path with
  | nil => rfl
  | cons value rest =>
    rw [isEmpty, List.isEmpty_iff] at h
    simp [metadataAt_cons, child, h] at hpath

/-! ## Traversal -/

/-- The traversal consumes the longest prefix with metadata and returns the node there. -/
theorem traverseUntilLastAccessibleNode_spec :
    ∃ front, path = front ++ (self.traverseUntilLastAccessibleNode path).2 ∧
      self.metadataAt front = some (self.traverseUntilLastAccessibleNode path).1.metadata ∧
      ∀ longer, longer <+: path → front.length < longer.length →
        self.metadataAt longer = none := by
  induction path generalizing self with
  | nil =>
    refine ⟨[], rfl, rfl, fun longer hlonger hlength => ?_⟩
    rw [prefix_nil.mp hlonger] at hlength
    simp at hlength
  | cons value rest ih =>
    rw [traverseUntilLastAccessibleNode]
    cases hchild : self.child value with
    | none =>
      refine ⟨[], rfl, rfl, fun longer hlonger hlength => ?_⟩
      obtain ⟨a, tail, rfl⟩ := exists_cons_of_length_pos hlength
      obtain ⟨_, hcons, _⟩ := cons_prefix_iff.mp hlonger
      obtain ⟨rfl, rfl⟩ := List.cons.inj hcons
      simp [metadataAt_cons, hchild]
    | some next =>
      obtain ⟨front, hrest, hfront, hmax⟩ := ih next
      refine ⟨value :: front, by simpa using hrest, ?_, fun longer hlonger hlength => ?_⟩
      · simpa [metadataAt_cons, hchild] using hfront
      · obtain ⟨a, tail, rfl⟩ := exists_cons_of_length_pos (Nat.zero_lt_of_lt hlength)
        obtain ⟨_, hcons, htail⟩ := cons_prefix_iff.mp hlonger
        obtain ⟨rfl, rfl⟩ := List.cons.inj hcons
        simpa [metadataAt_cons, hchild] using hmax tail htail (by simpa using hlength)

/-- The traversal reaches the end of a path if and only if the path has metadata. -/
theorem traverse_snd_eq_nil_iff :
    (self.traverseUntilLastAccessibleNode path).2 = [] ↔ (self.metadataAt path).isSome := by
  induction path generalizing self with
  | nil => simp [traverseUntilLastAccessibleNode]
  | cons value rest ih =>
    rw [traverseUntilLastAccessibleNode, metadataAt_cons]
    cases self.child value with
    | none => simp
    | some next => exact ih next

/-- At a path with metadata the traversal returns the node with that metadata. -/
theorem metadata_traverse_of_metadataAt {m : μ} (h : self.metadataAt path = some m) :
    (self.traverseUntilLastAccessibleNode path).1.metadata = m := by
  obtain ⟨front, hpath, hfront, -⟩ := self.traverseUntilLastAccessibleNode_spec path
  have hend := (self.traverse_snd_eq_nil_iff path).mpr (by simp [h])
  rw [hend, append_nil] at hpath
  rw [← hpath, h] at hfront
  exact (some.inj hfront).symm

/-! ## Insertion -/

section Insert

variable (provide : μ → α → μ)

@[simp]
theorem insert_nil : self.insert provide m [] = self.setMetadata m := rfl

/-- In a node without children nothing can be traversed. -/
theorem insert_of_isEmpty (h : ∀ value, self.child value = none) :
    self.insert provide m path = self.insertLoop provide m path := by
  cases path with
  | nil => rfl
  | cons value rest => simp [insert, modifyLastAccessibleNode, h]

/-- One step of an insertion: into the child that is there, or into a new node. -/
theorem insert_cons :
    self.insert provide m (value :: path) =
      self.setChild value
        (((self.child value).getD (node (provide self.metadata value) [])).insert provide m
          path) := by
  rw [insert, modifyLastAccessibleNode]
  cases hchild : self.child value with
  | none =>
    rw [getD_none, insert_of_isEmpty _ _ _ _ fun _ => rfl]
    simp only [insertLoop, ensureChild, hchild]
  | some next => rfl

/-- Setting the metadata of the last accessible node is an insertion if that node is at the whole
path. -/
theorem modifyLastAccessibleNode_setMetadata (h : (self.metadataAt path).isSome) :
    self.modifyLastAccessibleNode (fun last _ => last.setMetadata m) path =
      self.insert provide m path := by
  induction path generalizing self with
  | nil => rfl
  | cons value rest ih =>
    rw [insert_cons, modifyLastAccessibleNode]
    rw [metadataAt_cons] at h
    cases hchild : self.child value with
    | none => simp [hchild] at h
    | some next =>
      rw [hchild] at h
      simp [ih next h]

/-- Inserting the rest of a path into the last accessible node inserts the path. -/
theorem modifyLastAccessibleNode_insert :
    self.modifyLastAccessibleNode (fun last rest => last.insert provide m rest) path =
      self.insert provide m path := by
  induction path generalizing self with
  | nil => rfl
  | cons value rest ih =>
    rw [insert_cons, modifyLastAccessibleNode]
    cases hchild : self.child value with
    | none => simp only [insert_cons, hchild]
    | some next => simp [ih next]

@[simp]
theorem metadataAt_insert_self : (self.insert provide m path).metadataAt path = some m := by
  induction path generalizing self with
  | nil => rfl
  | cons value rest ih => rw [insert_cons, metadataAt_cons, child_setChild, if_pos rfl,
      bind_some, ih]

/-- An insertion leaves the other nodes as they are. -/
theorem metadataAt_insert_of_isSome {front : List α} (hne : front ≠ path)
    (h : (self.metadataAt front).isSome) :
    (self.insert provide m path).metadataAt front = self.metadataAt front := by
  induction path generalizing self front with
  | nil =>
    cases front with
    | nil => exact absurd rfl hne
    | cons value front => simp [metadataAt_cons]
  | cons value rest ih =>
    rw [insert_cons]
    cases front with
    | nil => simp
    | cons value' front =>
      rw [metadataAt_cons, metadataAt_cons, child_setChild]
      split
      next heq =>
        subst heq
        rw [metadataAt_cons] at h
        cases hchild : self.child value with
        | none => simp [hchild] at h
        | some next =>
          rw [hchild] at h
          exact ih next (fun hfront => hne (by rw [hfront])) h
      next => rfl

/-- An insertion is found at its path, and keeps what is found at others. -/
theorem metadataAt_insert : (self.insert provide m path).metadataAt path = some m ∧
    ∀ front ≠ path, (self.metadataAt front).isSome →
      (self.insert provide m path).metadataAt front = self.metadataAt front :=
  ⟨metadataAt_insert_self .., fun _ => metadataAt_insert_of_isSome self m path provide⟩

/-- Where the metadata after an insertion comes from: it is what was inserted, or was there before, or it
was provided for a node that was created on the way, from that of its parent. -/
theorem metadataAt_insert_cases {front : List α} {x : μ}
    (h : (self.insert provide m path).metadataAt front = some x) :
    (front = path ∧ x = m) ∨ self.metadataAt front = some x ∨
      front <+: path ∧ ∃ before value parent, front = before ++ [value] ∧
        (self.insert provide m path).metadataAt before = some parent ∧ x = provide parent value := by
  induction path generalizing self front with
  | nil =>
    cases front with
    | nil => exact .inl ⟨rfl, (some.inj h).symm⟩
    | cons value front => exact .inr (.inl h)
  | cons a rest ih =>
    rw [insert_cons] at h ⊢
    cases front with
    | nil => exact .inr (.inl h)
    | cons b front =>
      rw [metadataAt_cons, child_setChild] at h
      split at h
      next heq =>
        subst heq
        rcases ih _ h with ⟨rfl, rfl⟩ | hold | ⟨hpre, before, value, parent, rfl, hparent, rfl⟩
        · exact .inl ⟨rfl, rfl⟩
        · cases hchild : self.child a with
          | none =>
            -- the child was created for this insertion
            rw [hchild, getD_none] at hold
            cases front with
            | nil =>
              exact .inr (.inr ⟨by simp, [], a, self.metadata, rfl, rfl, (some.inj hold).symm⟩)
            | cons c front => cases hold
          | some next =>
            rw [hchild] at hold
            exact .inr (.inl (by rw [metadataAt_cons, hchild]; exact hold))
        · refine .inr (.inr ⟨by simpa using hpre, a :: before, value, parent, rfl, ?_, rfl⟩)
          rw [metadataAt_cons, child_setChild, if_pos rfl]
          exact hparent
      next => exact .inr (.inl h)

end Insert

end Trie

end AK
