import Mathlib.Data.Set.Card
import Mathlib.Data.Fintype.Pigeonhole
import Mathlib.Logic.Function.Iterate

/-!
# Probe sequences

In open addressing a value is looked for along a sequence of places, up to the first place at which the
search stops. This module has the facts about such sequences that do not depend on what the places
hold.

* `Probing.FirstAt stop seq k`: the search stops at the `k`-th place of `seq`, and not before.
* `Probing.Reaches occupied seq i`: a search that goes past occupied places gets to `i`.
* `Probing.exists_notMem_of_card_lt_ncard`: a sequence that visits more places than are occupied gets to
  one that is not.
-/

namespace Probing

variable {ι : Type*}

/-- The search along `seq` stops at its `k`-th place. -/
def FirstAt (stop : ι → Prop) (seq : ℕ → ι) (k : ℕ) : Prop :=
  stop (seq k) ∧ ∀ j < k, ¬stop (seq j)

/-- A search that stops at all stops at a first place. -/
theorem exists_firstAt {stop : ι → Prop} {seq : ℕ → ι} (h : ∃ k, stop (seq k)) :
    ∃ k, FirstAt stop seq k := by
  classical
  exact ⟨Nat.find h, Nat.find_spec h, fun j hj => Nat.find_min h hj⟩

/-- The place `i` is on the sequence, and all places before it are occupied. -/
def Reaches (occupied : ι → Prop) (seq : ℕ → ι) (i : ι) : Prop :=
  ∃ k, seq k = i ∧ ∀ j < k, occupied (seq j)

/-- Places stay reachable while others become occupied. -/
theorem Reaches.mono {occupied occupied' : ι → Prop} {seq : ℕ → ι} {i : ι}
    (h : Reaches occupied seq i) (himp : ∀ i, occupied i → occupied' i) :
    Reaches occupied' seq i := by
  obtain ⟨k, hk, hbefore⟩ := h
  exact ⟨k, hk, fun j hj => himp _ (hbefore j hj)⟩

/-- A sequence that visits more places than there are in `s` leaves `s`. -/
theorem exists_notMem_of_card_lt_ncard {seq : ℕ → ι} (s : Finset ι)
    (h : s.card < (Set.range seq).ncard) : ∃ k, seq k ∉ s := by
  by_contra hall
  push Not at hall
  have hsubset : Set.range seq ⊆ ↑s := by
    rintro _ ⟨k, rfl⟩
    exact hall k
  have hle := Set.ncard_le_ncard hsubset s.finite_toSet
  rw [Set.ncard_coe_finset] at hle
  omega

/-- The places of a list whose entries satisfy `p`. -/
theorem card_filter_getElem?_any {α : Type*} (l : List α) (p : α → Bool) :
    ((Finset.range l.length).filter fun i => (l[i]?).any p = true).card = l.countP p := by
  induction l using List.reverseRecOn with
  | nil => rfl
  | append_singleton l a ih =>
    have hfront : (Finset.range l.length).filter (fun i => ((l ++ [a])[i]?).any p = true) =
        (Finset.range l.length).filter fun i => (l[i]?).any p = true := by
      refine Finset.filter_congr fun i hi => ?_
      rw [List.getElem?_append_left (Finset.mem_range.mp hi)]
    rw [List.length_append, List.length_singleton, Finset.range_add_one, Finset.filter_insert, hfront,
      List.countP_append, List.countP_singleton, ← ih]
    by_cases ha : p a = true
    · rw [if_pos (by simpa using ha), if_pos ha, Finset.card_insert_of_notMem (by simp)]
    · rw [if_neg (by simpa using ha), if_neg ha, Nat.add_zero]

section Orbit

variable [Fintype ι]

/-- Every element of an orbit occurs among the first ones, as many as the type has elements. -/
theorem exists_lt_card_iterate_eq (f : ι → ι) (x : ι) (k : ℕ) :
    ∃ j < Fintype.card ι, f^[j] x = f^[k] x := by
  induction k using Nat.strong_induction_on with
  | _ k ih =>
  by_cases hk : k < Fintype.card ι
  · exact ⟨k, hk, rfl⟩
  -- two of the elements before the `k`-th are the same, so that the orbit can be shortened
  obtain ⟨a, b, hne, heq⟩ := Fintype.exists_ne_map_eq_of_card_lt
    (fun i : Fin (Fintype.card ι + 1) => f^[(i : ℕ)] x) (by simp)
  wlog hlt : a < b generalizing a b
  · exact this b a hne.symm heq.symm (lt_of_le_of_ne (not_lt.mp hlt) hne.symm)
  have hb : (b : ℕ) ≤ k := by omega
  obtain ⟨j, hj, hiterate⟩ := ih (k - b + a) (by omega)
  refine ⟨j, hj, hiterate.trans ?_⟩
  calc f^[k - b + a] x = f^[k - b] (f^[(a : ℕ)] x) := Function.iterate_add_apply f _ _ x
    _ = f^[k - b] (f^[(b : ℕ)] x) := by rw [heq]
    _ = f^[k] x := by rw [← Function.iterate_add_apply, Nat.sub_add_cancel hb]

end Orbit

end Probing
