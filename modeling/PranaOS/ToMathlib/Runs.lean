import Mathlib.Data.Nat.Find
import Mathlib.Order.Bounds.Basic

/-!
# Runs of positions

A run of `p` is an interval of natural numbers at all of which `p` holds. `longestRun p lo hi` is the
length of a longest run inside `[lo, hi)`, `runBefore p bound` the length of the run that ends at `bound`,
and `runFrom p lo hi` that of the run that starts at `lo`, as far as it is below `hi`. A bound splits the
runs (`longestRun_split`): a run is on one of its sides or part of the one across it.
-/

namespace Runs

variable {p : ℕ → Prop} {s n lo hi bound : ℕ}

/-- `p` holds at the `n` positions from `s` on. -/
def IsRun (p : ℕ → Prop) (s n : ℕ) : Prop := ∀ j < n, p (s + j)

instance [DecidablePred p] : Decidable (IsRun p s n) := inferInstanceAs (Decidable (∀ j < n, p (s + j)))

theorem isRun_iff : IsRun p s n ↔ ∀ i, s ≤ i → i < s + n → p i := by
  constructor
  · intro h i hle hlt
    obtain ⟨j, rfl⟩ := Nat.exists_eq_add_of_le hle
    exact h j (by omega)
  · intro h j hj
    exact h (s + j) (by omega) (by omega)

theorem IsRun.at (h : IsRun p s n) {i : ℕ} (hle : s ≤ i) (hlt : i < s + n) : p i :=
  isRun_iff.mp h i hle hlt

/-- A part of a run is a run. -/
theorem IsRun.sub (h : IsRun p s n) {s' n' : ℕ} (hle : s ≤ s') (hend : s' + n' ≤ s + n) : IsRun p s' n' :=
  fun j hj => h.at (by omega) (by omega)

/-- Two runs without a gap between them are a run. -/
theorem IsRun.append (h : IsRun p s n) {n' : ℕ} (h' : IsRun p (s + n) n') : IsRun p s (n + n') := by
  intro j hj
  by_cases hlt : j < n
  · exact h j hlt
  · exact h'.at (by omega) (by omega)

variable [DecidablePred p]

/-- The length of a longest run inside `[lo, hi)`. -/
def longestRun (p : ℕ → Prop) [DecidablePred p] (lo hi : ℕ) : ℕ :=
  Nat.findGreatest (fun n => ∃ s < hi + 1, lo ≤ s ∧ s + n ≤ hi ∧ IsRun p s n) (hi - lo)

/-- The length of the run that ends at `bound`. -/
def runBefore (p : ℕ → Prop) [DecidablePred p] (bound : ℕ) : ℕ :=
  Nat.findGreatest (fun n => IsRun p (bound - n) n) bound

/-- The length of the run inside `[lo, hi)` that starts at `lo`. -/
def runFrom (p : ℕ → Prop) [DecidablePred p] (lo hi : ℕ) : ℕ :=
  Nat.findGreatest (fun n => IsRun p lo n) (hi - lo)

/-! ## The longest run -/

theorem IsRun.le_longestRun (h : IsRun p s n) (hlo : lo ≤ s) (hhi : s + n ≤ hi) : n ≤ longestRun p lo hi :=
  Nat.le_findGreatest (by omega) ⟨s, by omega, hlo, hhi, h⟩

theorem exists_longestRun (h : lo ≤ hi) :
    ∃ s, lo ≤ s ∧ s + longestRun p lo hi ≤ hi ∧ IsRun p s (longestRun p lo hi) := by
  have hnone : ∃ s < hi + 1, lo ≤ s ∧ s + 0 ≤ hi ∧ IsRun p s 0 :=
    ⟨lo, by omega, le_rfl, by omega, fun j hj => absurd hj (Nat.not_lt_zero j)⟩
  obtain ⟨s, -, hlo, hhi, hrun⟩ := Nat.findGreatest_spec
    (P := fun n => ∃ s < hi + 1, lo ≤ s ∧ s + n ≤ hi ∧ IsRun p s n) (Nat.zero_le (hi - lo)) hnone
  exact ⟨s, hlo, hhi, hrun⟩

/-- The longest run is shorter than `n` if no run has length `n`. -/
theorem longestRun_lt (h : lo ≤ hi) (hnone : ∀ s, lo ≤ s → s + n ≤ hi → ¬IsRun p s n) :
    longestRun p lo hi < n := by
  obtain ⟨s, hlo, hhi, hrun⟩ := exists_longestRun (p := p) h
  by_contra hle
  exact hnone s hlo (by omega) (hrun.sub le_rfl (by omega))

theorem longestRun_mono {lo' hi' : ℕ} (h : lo ≤ hi) (hlo : lo' ≤ lo) (hhi : hi ≤ hi') :
    longestRun p lo hi ≤ longestRun p lo' hi' := by
  obtain ⟨s, hlow, hhigh, hrun⟩ := exists_longestRun (p := p) h
  exact hrun.le_longestRun (by omega) (by omega)

/-! ## The runs at a bound -/

theorem runBefore_le (p : ℕ → Prop) [DecidablePred p] (bound : ℕ) : runBefore p bound ≤ bound := Nat.findGreatest_le bound

theorem isRun_runBefore (p : ℕ → Prop) [DecidablePred p] (bound : ℕ) :
    IsRun p (bound - runBefore p bound) (runBefore p bound) := by
  have hnone : IsRun p (bound - 0) 0 := fun j hj => absurd hj (Nat.not_lt_zero j)
  exact Nat.findGreatest_spec (P := fun n => IsRun p (bound - n) n) (Nat.zero_le bound) hnone

/-- A run that ends at the bound is part of the run before it. -/
theorem IsRun.le_runBefore (h : IsRun p s n) (hend : s + n = bound) : n ≤ runBefore p bound := by
  refine Nat.le_findGreatest (by omega) ?_
  rwa [← hend, Nat.add_sub_cancel]

/-- A run that ends behind the beginning of the run before the bound does not start before that run. -/
theorem IsRun.le_start (h : IsRun p s n) (hend : bound - runBefore p bound < s + n) :
    bound - runBefore p bound ≤ s := by
  by_contra hlt
  have hhead : IsRun p s (bound - runBefore p bound - s) := h.sub le_rfl (by omega)
  have hwhole := hhead.append (by
    rw [show s + (bound - runBefore p bound - s) = bound - runBefore p bound by omega]
    exact isRun_runBefore p bound)
  have := hwhole.le_runBefore (show _ = bound by omega)
  omega

theorem runFrom_le (p : ℕ → Prop) [DecidablePred p] (lo hi : ℕ) : runFrom p lo hi ≤ hi - lo := Nat.findGreatest_le _

theorem isRun_runFrom : IsRun p lo (runFrom p lo hi) := by
  have hnone : IsRun p lo 0 := fun j hj => absurd hj (Nat.not_lt_zero j)
  exact Nat.findGreatest_spec (P := fun n => IsRun p lo n) (Nat.zero_le (hi - lo)) hnone

/-- A run that starts at `lo` is part of the run from there on. -/
theorem IsRun.le_runFrom (h : IsRun p lo n) (hend : lo + n ≤ hi) : n ≤ runFrom p lo hi :=
  Nat.le_findGreatest (by omega) h

/-- The run across a bound. -/
theorem isRun_across (p : ℕ → Prop) [DecidablePred p] (bound hi : ℕ) :
    IsRun p (bound - runBefore p bound) (runBefore p bound + runFrom p bound hi) := by
  refine (isRun_runBefore p bound).append ?_
  rw [Nat.sub_add_cancel (runBefore_le p bound)]
  exact isRun_runFrom

/-- A run is before the run across the bound, part of it, or behind the bound. -/
theorem longestRun_split (hlo : lo ≤ bound - runBefore p bound) (hhi : bound ≤ hi) :
    longestRun p lo hi = max (longestRun p lo (bound - runBefore p bound))
      (max (runBefore p bound + runFrom p bound hi) (longestRun p bound hi)) := by
  have hbefore := runBefore_le p bound
  have hfrom := runFrom_le p bound hi
  apply le_antisymm
  · obtain ⟨s, hlow, hhigh, hrun⟩ := exists_longestRun (p := p) (show lo ≤ hi by omega)
    by_contra hlt
    by_cases hleft : s + longestRun p lo hi ≤ bound - runBefore p bound
    · have := hrun.le_longestRun hlow hleft
      omega
    · by_cases hright : bound ≤ s
      · have := hrun.le_longestRun hright hhigh
        omega
      · have hstart := hrun.le_start (not_le.mp hleft)
        by_cases hend : s + longestRun p lo hi ≤ bound
        · omega
        · have htail : IsRun p bound (s + longestRun p lo hi - bound) := hrun.sub (by omega) (by omega)
          have := htail.le_runFrom (show _ ≤ hi by omega)
          omega
  · refine max_le (longestRun_mono hlo le_rfl (by omega)) (max_le ?_ (longestRun_mono hhi (by omega) le_rfl))
    exact (isRun_across p bound hi).le_longestRun hlo (by omega)

end Runs
