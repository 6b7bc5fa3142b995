import PranaOS.AK.HashTable.Operations

/-!
# `HashTable` refines a finite set

`State` is a table together with the set it stands for, as a list of values that are pairwise different.
`perform` runs an operation on both. `Refines` is what the table has in common with the set, and
`refines_of_run` says that it holds in every state that is reached, and how the next operation can end.

An operation that allocates writes the end mark outside the array if the size of the array wraps around
in `sizeof(Bucket) * (new_capacity + 1)`. `StepOk` excludes that.
-/

namespace AK.HashTable

open Except Transition Option

variable {α : Type}

/-- The operations that change a table. `copy` goes on with a copy of it. -/
inductive Operation (α : Type)
  | set (value : α)
  | remove (value : α)
  | removeAt (iterator : Option ℕ)
  | ensureCapacity (capacity : ℕ)
  | copy

/-- A table and the set it stands for. -/
structure State (α : Type) where
  table : HashTable α := {}
  contents : List α := []
  deriving DecidableEq

variable (traits : Traits α)

/-- An operation on the table and on the set. -/
def perform (state : State α) : Operation α → Except Halt (State α)
  | .set value => do
    let (table, _) ← state.table.set traits value
    return ⟨table, value :: without traits value state.contents⟩
  | .remove value => do
    let (table, _) ← state.table.remove traits value
    return ⟨table, without traits value state.contents⟩
  | .removeAt iterator => do
    let table ← state.table.removeAt iterator
    return ⟨table, match iterator.bind state.table.slotAt with
      | some value => without traits value state.contents
      | none => state.contents⟩
  | .ensureCapacity capacity => do
    let table ← state.table.ensureCapacity traits capacity
    return ⟨table, state.contents⟩
  | .copy => do
    let table ← state.table.copy traits
    return ⟨table, state.contents⟩

/-- The step of a run. -/
def step (state : State α) (operation : Operation α) : Option (State α) :=
  (perform traits state operation).toOption

/-- The table has the values of the set. -/
structure Refines (traits : Traits α) (state : State α) : Prop where
  found : ∀ value, (∃ x ∈ state.contents, traits.equals value x = true) →
    state.table.contains traits value = .ok true ∧
    ∃ i x, state.table.find traits value = .ok (some i) ∧ state.table.slotAt i = some x ∧
      traits.equals value x = true
  notFound : ∀ value, (∀ x ∈ state.contents, traits.equals value x = false) →
    state.table.contains traits value = .ok false ∧ state.table.find traits value = .ok none ∨
    state.table.find traits value = .error .hang ∧ ¬Ends traits state.table value
  distinct : ∀ i j x y, i ≠ j → state.table.slotAt i = some x → state.table.slotAt j = some y →
    traits.equals x y = false
  size_eq : state.table.size = state.table.buckets.countP Bucket.used
  deletedCount_eq : state.table.deletedCount = state.table.buckets.countP Bucket.deleted
  iteration : ∃ values, state.table.values = .ok values ∧ values.Perm state.contents

/-- No request of the operation wraps around, and an iterator points into the array. -/
def StepOk (state : State α) : Operation α → Prop
  | .set _ => state.table.shouldGrow = true →
      Room traits state.table.size (max (state.table.capacity * 2 % 2 ^ 32) 4)
  | .remove _ => True
  | .removeAt iterator => ∀ i ∈ iterator, i < state.table.buckets.length
  | .ensureCapacity capacity => Room traits state.table.size (max (capacity * 2 % 2 ^ 32) 4)
  | .copy => Room traits state.table.size (max state.table.capacity 4)

/-- The assertions of the operation hold. -/
def Asserted (state : State α) : Operation α → Prop
  | .removeAt iterator => iterator.bind state.table.slotAt ≠ none
  | .ensureCapacity capacity => capacity ≥ state.table.size
  | _ => True

/-- The invariant of runs. -/
structure Inv (traits : Traits α) (state : State α) : Prop where
  wellFormed : WellFormed traits state.table
  perm : state.table.elements.Perm state.contents

variable {traits : Traits α} {state : State α}

/-- Values in different buckets are different. -/
theorem Ready.distinct_slots {table : HashTable α} (h : Ready traits table) {i j : ℕ} {x y : α}
    (hij : i ≠ j) (hi : table.slotAt i = some x) (hj : table.slotAt j = some y) :
    traits.equals x y = false := by
  have hdistinct := h.distinct
  rw [elements, List.pairwise_filterMap, List.pairwise_iff_getElem] at hdistinct
  obtain ⟨bucket, hbucket, hx⟩ := bind_eq_some_iff.mp hi
  obtain ⟨bucket', hbucket', hy⟩ := bind_eq_some_iff.mp hj
  obtain ⟨hilt, rfl⟩ := List.getElem?_eq_some_iff.mp hbucket
  obtain ⟨hjlt, rfl⟩ := List.getElem?_eq_some_iff.mp hbucket'
  rcases Nat.lt_or_gt_of_ne hij with hlt | hlt
  · exact hdistinct i j hilt hjlt hlt x hx y hy
  · rw [equals_comm]
    exact hdistinct j i hjlt hilt hlt y hy x hx

theorem Inv.refines (h : Inv traits state) : Refines traits state where
  found := by
    rintro value ⟨x, hx, hequals⟩
    obtain ⟨i, y, hfind, hy, hequals'⟩ := h.wellFormed.find_of_mem (h.perm.mem_iff.mpr hx) hequals
    refine ⟨?_, i, y, hfind, hy, hequals'⟩
    rw [contains, hfind]
    rfl
  notFound := by
    intro value hnot
    rcases h.wellFormed.find_of_not_mem fun x hx => hnot x (h.perm.mem_iff.mp hx) with
      hfind | ⟨hfind, -, hends⟩
    · refine Or.inl ⟨?_, hfind⟩
      rw [contains, hfind]
      rfl
    · exact Or.inr ⟨hfind, hends⟩
  distinct := fun i j x y => h.wellFormed.ready.distinct_slots
  size_eq := by
    rw [h.wellFormed.size_eq, elements, List.length_filterMap_eq_countP]
    rfl
  deletedCount_eq := h.wellFormed.deletedCount_eq
  iteration := ⟨_, h.wellFormed.ready.values_eq, h.perm⟩

/-- Leaving out a value of the table leaves it out of the set. -/
theorem without_perm_without {l l' : List α} (hperm : l.Perm l') (value : α) :
    (without traits value l).Perm (without traits value l') := hperm.filter _

/-- Every operation keeps the invariant. -/
theorem Inv.perform_spec (h : Inv traits state) (operation : Operation α) :
    Ensures (Excludes (Asserted state operation) (StepOk traits state operation) (LookupsEnd traits))
      (Inv traits) (perform traits state operation) := by
  have hwell := h.wellFormed
  cases operation with
  | set value =>
    refine ((hwell.set_spec value).anti (Excludes.imp id id fun hends => hends.lookup hwell value)).bind
      fun result hset => ?_
    exact ⟨hset.wellFormed, hset.perm.trans ((without_perm_without h.perm value).cons value)⟩
  | remove value =>
    refine ((hwell.remove_spec value).anti (Excludes.imp id id fun hends => hends _ value)).bind
      fun result hremove => ?_
    exact ⟨hremove.1, hremove.2.1.trans (without_perm_without h.perm value)⟩
  | removeAt iterator =>
    cases iterator with
    | none => exact fun hasserted => hasserted rfl
    | some i =>
      by_cases hi : i < state.table.buckets.length
      · cases hx : state.table.slotAt i with
        | none =>
          rw [perform, removeAt_of_slotAt_eq_none hi hx]
          exact fun hasserted => hasserted hx
        | some x =>
          obtain ⟨table', hremove, hwell', hperm, -⟩ := hwell.removeAt_spec hx
          rw [perform, hremove]
          refine ⟨hwell', ?_⟩
          simp only [bind_some, hx]
          exact (without_perm (traits.equals_refl x) hwell.ready.distinct hperm).symm.trans
            (without_perm_without h.perm x)
      · rw [perform, removeAt, List.getElem?_eq_none (by omega)]
        exact fun hok => hi (hok i rfl)
  | ensureCapacity capacity =>
    rw [perform, ensureCapacity]
    split
    next hle =>
      refine ((hwell.rehash_spec _).anti (Excludes.imp (fun _ => trivial) id
        fun hends moved hmoved x _ => hends moved x hmoved.toStored)).bind fun table htable => ?_
      exact ⟨htable.1, htable.2.1.trans h.perm⟩
    next hlt => exact fun hasserted => hlt hasserted
  | copy => exact hwell.copy_spec.bind fun table htable => ⟨htable.1, htable.2.trans h.perm⟩

/-- **The table is the set.** Every state that a run reaches refines the set. The next operation keeps
that, unless one of its assertions fails, a lookup goes on forever, or a request wraps around. -/
theorem refines_of_run (traits : Traits α) (operations : List (Operation α)) (state : State α)
    (hrun : run (step traits) {} operations = some state) :
    Refines traits state ∧ ∀ operation, StepOk traits state operation →
      (∃ state', perform traits state operation = .ok state' ∧ Refines traits state') ∨
      perform traits state operation = .error .verify ∧ ¬Asserted state operation ∨
      perform traits state operation = .error .hang ∧ ¬LookupsEnd traits := by
  have hinv : Inv traits state := by
    refine run_invariant (fun s operation s' hs hstep => ?_) ⟨wellFormed_empty, List.Perm.refl _⟩ hrun
    have hspec := hs.perform_spec operation
    rw [step] at hstep
    cases hperform : perform traits s operation with
    | error e => simp [hperform, Except.toOption] at hstep
    | ok s'' =>
      rw [hperform] at hspec hstep
      exact some.inj hstep ▸ hspec
  refine ⟨hinv.refines, fun operation hok => ?_⟩
  have hspec := hinv.perform_spec operation
  cases hperform : perform traits state operation with
  | ok state' =>
    rw [hperform] at hspec
    exact Or.inl ⟨state', rfl, hspec.refines⟩
  | error e =>
    rw [hperform] at hspec
    refine Or.inr ?_
    cases e with
    | verify => exact Or.inl ⟨rfl, hspec⟩
    | invalidAccess => exact absurd hok hspec
    | hang => exact Or.inr ⟨rfl, hspec⟩

/-- A run through all operations. -/
theorem refines_of_run_all_operations :
    ∃ state, run (step traitsU32) {} [.set 0, .set 1, .set 2, .remove 1, .removeAt (some 1),
        .ensureCapacity 3, .copy] = some state ∧
      Refines traitsU32 state ∧ StepOk traitsU32 state (.remove 0) := by
  have hsome : (run (step traitsU32) {} [.set 0, .set 1, .set 2, .remove 1, .removeAt (some 1),
      .ensureCapacity 3, .copy]).isSome = true := by decide +kernel
  obtain ⟨state, hstate⟩ := isSome_iff_exists.mp hsome
  exact ⟨state, hstate, (refines_of_run traitsU32 _ state hstate).1, trivial⟩

/-- `ensure_capacity(2 ^ 28)` asks for `2 ^ 29 + 1` buckets of eight bytes, which wraps around to one
bucket, and writes the end mark behind it. -/
theorem ensureCapacity_wraps :
    perform traitsU32 {} (.ensureCapacity (2 ^ 28)) = .error .invalidAccess := by
  decide +kernel

end AK.HashTable
