import Mathlib.Data.List.Perm.Lattice
import Mathlib.Data.List.Nodup

/-!
# Linked lists in a memory

A memory gives every cell the cell that it points to. `IsList next head cells` says that following the
pointers from `head` visits `cells`, in this order, and ends at the null pointer.
-/

namespace LinkedList

open List

variable {α : Type*}

/-- The cells that are reached from `head` are `cells`. -/
def IsList (next : α → Option α) (head : Option α) : List α → Prop
  | [] => head = none
  | cell :: rest => head = some cell ∧ IsList next (next cell) rest

namespace IsList

variable {next next' : α → Option α} {head : Option α} {cells cells' : List α} {cell : α}

@[simp]
theorem nil_iff : IsList next head [] ↔ head = none := Iff.rfl

@[simp]
theorem cons_iff :
    IsList next head (cell :: cells) ↔ head = some cell ∧ IsList next (next cell) cells := Iff.rfl

theorem eq_nil (h : IsList next none cells) : cells = [] := by
  cases cells with
  | nil => rfl
  | cons cell rest => simp at h

/-- A list that starts at a cell has that cell as its first element. -/
theorem exists_cons (h : IsList next (some cell) cells) :
    ∃ rest, cells = cell :: rest ∧ IsList next (next cell) rest := by
  cases cells with
  | nil => simp at h
  | cons first rest =>
    obtain ⟨hfirst, hrest⟩ := cons_iff.mp h
    obtain rfl := Option.some.inj hfirst
    exact ⟨rest, rfl, hrest⟩

variable (h : IsList next head cells)

include h

/-- The pointers determine the list. -/
theorem unique (h' : IsList next head cells') : cells = cells' := by
  induction cells generalizing head cells' with
  | nil =>
    subst h
    exact h'.eq_nil.symm
  | cons cell rest ih =>
    obtain ⟨rfl, hrest⟩ := cons_iff.mp h
    obtain ⟨rest', rfl, hrest'⟩ := h'.exists_cons
    rw [ih hrest hrest']

/-- Only the pointers of the cells of the list matter. -/
theorem congr (hsame : ∀ cell ∈ cells, next' cell = next cell) :
    IsList next' head cells := by
  induction cells generalizing head with
  | nil => exact h
  | cons cell rest ih =>
    obtain ⟨hhead, hrest⟩ := cons_iff.mp h
    refine ⟨hhead, ?_⟩
    rw [hsame cell mem_cons_self]
    exact ih hrest fun c hc => hsame c (mem_cons_of_mem cell hc)

/-- From a cell of the list the rest of the list is reached. -/
theorem exists_suffix (hmem : cell ∈ cells) :
    ∃ rest, cell :: rest <:+ cells ∧ IsList next (some cell) (cell :: rest) := by
  induction cells generalizing head with
  | nil => simp at hmem
  | cons first rest ih =>
    obtain ⟨rfl, hrest⟩ := cons_iff.mp h
    rcases mem_cons.mp hmem with rfl | hmem
    · exact ⟨rest, suffix_refl _, h⟩
    · obtain ⟨suffix, hsuffix, hlist⟩ := ih hrest hmem
      exact ⟨suffix, hsuffix.trans (suffix_cons first rest), hlist⟩

/-- A list that ends does not come back to one of its cells. -/
theorem nodup : cells.Nodup := by
  induction cells generalizing head with
  | nil => exact nodup_nil
  | cons cell rest ih =>
    obtain ⟨rfl, hrest⟩ := cons_iff.mp h
    refine nodup_cons.mpr ⟨?_, ih hrest⟩
    -- Otherwise the list from this cell would be a proper part of itself.
    intro hmem
    obtain ⟨rest', hsuffix, hlist⟩ := hrest.exists_suffix hmem
    obtain ⟨-, heq⟩ := List.cons.inj (h.unique hlist)
    have := hsuffix.length_le
    simp only [length_cons, heq] at this
    omega

omit h

/-- Two lists in one memory with the same cells start at the same cell. -/
theorem head_eq {head' : Option α} (h : IsList next head cells) (h' : IsList next head' cells')
    (hmem : ∀ cell, cell ∈ cells ↔ cell ∈ cells') : head = head' := by
  cases cells' with
  | nil =>
    have hnil : cells = [] := eq_nil_iff_forall_not_mem.mpr fun cell hcell => by
      simpa using (hmem cell).mp hcell
    subst hnil
    rw [nil_iff.mp h, nil_iff.mp h']
  | cons cell rest =>
    obtain ⟨rfl, -⟩ := cons_iff.mp h'
    obtain ⟨rest', hsuffix, hlist⟩ := h.exists_suffix ((hmem cell).mpr mem_cons_self)
    -- From that cell all of the cells are reached, so it is the first of the other list too.
    have hlength : cells.length = (cell :: rest).length :=
      ((perm_ext_iff_of_nodup h.nodup h'.nodup).mpr hmem).length_eq
    have hsame : cell :: rest' = cells := hsuffix.eq_of_length (by rw [hlength, ← hlist.unique h'])
    subst hsame
    exact (cons_iff.mp h).1

end IsList

end LinkedList
