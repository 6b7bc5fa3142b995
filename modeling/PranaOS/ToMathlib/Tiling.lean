import Mathlib.Data.Set.Lattice
import Mathlib.Order.CompletePartialOrder
import Mathlib.Order.Interval.Set.Defs
import Mathlib.Data.List.Perm.Basic

/-!
# Counting how often a list of cells covers a point

A list of cells (address ranges, blocks of chunks, runs of pages) is described by the number of
its cells that contain each point. Cutting a cell into pieces, joining two neighbours or moving a
cell between two lists are then equations between these numbers, with no case distinction on how
the cells lie relative to each other.

* `Tiling.multiplicity cell l x`: how many cells of `l` contain `x`.
* `Tiling.Tiles cell l S`: the cells of `l` cover each point of `S` exactly once and no other.
* `Tiling.pairwise_disjoint_iff`: cells are pairwise disjoint iff no point is covered twice.
-/

namespace Tiling

variable {ι β : Type*} (cell : ι → Set β) [∀ i, DecidablePred (· ∈ cell i)]

/-- The number of cells of `l` that contain `x`. -/
def multiplicity (l : List ι) (x : β) : ℕ := l.countP fun i => x ∈ cell i

/-- The cells of `l` cover every point of `S` once and cover nothing else. -/
def Tiles (l : List ι) (S : Set β) : Prop :=
  (∀ x ∈ S, multiplicity cell l x = 1) ∧ ∀ x ∉ S, multiplicity cell l x = 0

variable {cell} {i : ι} {l l' : List ι} {x : β} {S : Set β}

@[simp]
theorem multiplicity_nil : multiplicity cell [] x = 0 := rfl

theorem multiplicity_cons :
    multiplicity cell (i :: l) x = multiplicity cell l x + if x ∈ cell i then 1 else 0 := by
  simp [multiplicity, List.countP_cons]

@[simp]
theorem multiplicity_append :
    multiplicity cell (l ++ l') x = multiplicity cell l x + multiplicity cell l' x :=
  List.countP_append

theorem multiplicity_perm (h : l.Perm l') : multiplicity cell l x = multiplicity cell l' x :=
  h.countP_eq _

theorem multiplicity_pos : 0 < multiplicity cell l x ↔ ∃ i ∈ l, x ∈ cell i := by
  simp [multiplicity, List.countP_pos_iff]

/-- Cells are pairwise disjoint exactly if no point is covered twice. -/
theorem pairwise_disjoint_iff :
    l.Pairwise (fun i j => Disjoint (cell i) (cell j)) ↔ ∀ x, multiplicity cell l x ≤ 1 := by
  induction l with
  | nil => simp
  | cons i l ih =>
    rw [List.pairwise_cons, ih]
    constructor
    · rintro ⟨hhead, htail⟩ x
      rw [multiplicity_cons]
      split
      next hx =>
        -- `x` lies in the head, hence in no cell of the tail
        have hzero : multiplicity cell l x = 0 := by
          by_contra hne
          obtain ⟨j, hj, hxj⟩ := multiplicity_pos.mp (Nat.pos_of_ne_zero hne)
          exact Set.disjoint_left.mp (hhead j hj) hx hxj
        omega
      next => exact htail x
    · intro hle
      refine ⟨fun j hj => Set.disjoint_left.mpr fun x hxi hxj => ?_, fun x => ?_⟩
      · have hpos := multiplicity_pos.mpr ⟨j, hj, hxj⟩
        have hx := hle x
        rw [multiplicity_cons, if_pos hxi] at hx
        omega
      · have hx := hle x
        rw [multiplicity_cons] at hx
        omega

theorem Tiles.le_one (h : Tiles cell l S) (x : β) : multiplicity cell l x ≤ 1 := by
  by_cases hx : x ∈ S
  · exact (h.1 x hx).le
  · rw [h.2 x hx]
    exact Nat.zero_le 1

/-- The points covered by a tiling are those of the tiled set. -/
theorem Tiles.mem_iff (h : Tiles cell l S) : x ∈ S ↔ ∃ i ∈ l, x ∈ cell i := by
  rw [← multiplicity_pos]
  by_cases hx : x ∈ S
  · simp [hx, h.1 x hx]
  · simp [hx, h.2 x hx]

theorem tiles_singleton : Tiles cell [i] (cell i) := by
  constructor <;> intro x hx <;> simp [multiplicity_cons, hx]

/-- Lists that cover every point equally often tile the same sets. -/
theorem Tiles.congr (h : Tiles cell l S)
    (heq : ∀ x, multiplicity cell l' x = multiplicity cell l x) : Tiles cell l' S :=
  ⟨fun x hx => (heq x).trans (h.1 x hx), fun x hx => (heq x).trans (h.2 x hx)⟩

end Tiling
