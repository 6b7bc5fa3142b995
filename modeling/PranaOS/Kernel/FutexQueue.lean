import PranaOS.AK.Assertions
import PranaOS.AK.StdLibExtras

/-!
# `Kernel/FutexQueue.cpp`

A futex queue holds the blockers of the threads that wait in it, in the order in which they were
added. `wake_n` goes through them, and removes those that it unblocks. `wake_n_requeue` then moves
some of those that are left to another queue. `conservesWaiters_iff` says when no waiter gets lost
on the way.
-/

namespace Kernel

open AK List Option

/-- `FUTEX_BITSET_MATCH_ANY`. -/
def futexBitsetMatchAny : BitVec 32 := 0xffffffff

/-- A `FutexBlocker` in the list of a futex queue. It leaves the list when it is unblocked, so
`m_did_unblock` is false for all of them. -/
structure FutexBlocker (T : Type) where
  /-- The thread. -/
  thread : T
  /-- `m_bitset`. -/
  bitset : BitVec 32
deriving DecidableEq, Repr

namespace FutexBlocker

variable {T : Type}

/-- What `unblock` (without a bitset) or `unblock_bitset` returns. -/
def unblock (bitset : Option (BitVec 32)) (self : FutexBlocker T) : Bool :=
  match bitset with
  | none => true
  | some bitset => !(bitset ≠ futexBitsetMatchAny && (self.bitset &&& bitset) = 0)

end FutexBlocker

namespace FutexQueue

variable {T : Type}

/-- The loop of `do_unblock` in `wake_n`: the blockers that stay and those that are unblocked. -/
def wakeLoop (wakeCount : ℕ) (bitset : Option (BitVec 32)) :
    ℕ → List (FutexBlocker T) → Option (List (FutexBlocker T) × List (FutexBlocker T))
  | _, [] => some ([], [])
  | didWake, blocker :: rest => do
    verify (didWake < wakeCount)
    if blocker.unblock bitset then
      if didWake + 1 ≥ wakeCount then some (rest, [blocker])
      else
        let (stay, woken) ← wakeLoop wakeCount bitset (didWake + 1) rest
        some (stay, blocker :: woken)
    else
      let (stay, woken) ← wakeLoop wakeCount bitset didWake rest
      some (blocker :: stay, woken)

/-- `wake_n`, for a count that is not zero. -/
def wakeN (wakeCount : ℕ) (bitset : Option (BitVec 32)) (blockers : List (FutexBlocker T)) :
    Option (List (FutexBlocker T) × List (FutexBlocker T)) :=
  wakeLoop wakeCount bitset 0 blockers

variable {wakeCount didWake : ℕ} {bitset : Option (BitVec 32)}
  {blockers stay woken : List (FutexBlocker T)}

/-- The loop splits the blockers into those that stay and those that are unblocked. -/
theorem wakeLoop_spec (bitset : Option (BitVec 32)) (blockers : List (FutexBlocker T))
    (h : didWake < wakeCount) :
    ∃ stay woken, wakeLoop wakeCount bitset didWake blockers = some (stay, woken) ∧
      (stay ++ woken).Perm blockers := by
  induction blockers generalizing didWake with
  | nil => exact ⟨[], [], rfl, List.Perm.refl _⟩
  | cons blocker rest ih =>
    simp only [wakeLoop, verify_bind_eq_some, h]
    by_cases hunblock : blocker.unblock bitset
    · by_cases hlast : didWake + 1 ≥ wakeCount
      · exact ⟨rest, [blocker], by simp [hunblock, hlast], perm_append_singleton _ _⟩
      · obtain ⟨stay, woken, hloop, hperm⟩ := ih (Nat.lt_of_not_ge hlast)
        refine ⟨stay, blocker :: woken, by simp [hunblock, hlast, hloop], ?_⟩
        exact perm_middle.trans (hperm.cons blocker)
    · obtain ⟨stay, woken, hloop, hperm⟩ := ih h
      exact ⟨blocker :: stay, woken, by simp [hunblock, hloop], hperm.cons blocker⟩

/-- Without a bitset the loop unblocks from the front, as many as it was asked for. -/
theorem wakeLoop_none (h : didWake < wakeCount) :
    wakeLoop wakeCount none didWake blockers =
      some (blockers.drop (wakeCount - didWake), blockers.take (wakeCount - didWake)) := by
  induction blockers generalizing didWake with
  | nil => simp [wakeLoop]
  | cons blocker rest ih =>
    obtain ⟨k, hk⟩ : ∃ k, wakeCount - didWake = k + 1 := ⟨wakeCount - didWake - 1, by omega⟩
    simp only [wakeLoop, h, FutexBlocker.unblock, hk, drop_succ_cons, take_succ_cons]
    by_cases hlast : didWake + 1 ≥ wakeCount
    · obtain rfl : k = 0 := by omega
      simp [hlast]
    · have hk' : wakeCount - (didWake + 1) = k := by omega
      simp [hlast, ih (Nat.lt_of_not_ge hlast), hk']

/-! ## Requeueing -/

section Blockers

variable {α : Type}

/-- The loop of `do_take_blockers`, with `count` rounds to go: `take(i)` removes the entry, so that
those behind it move up. -/
def takeLoop : ℕ → ℕ → List α → Option (List α × List α)
  | 0, _, blockers => some ([], blockers)
  | count + 1, i, blockers => do
    let blocker ← blockers[i]?
    let (taken, rest) ← takeLoop count (i + 1) (blockers.eraseIdx i)
    some (blocker :: taken, rest)

/-- `do_take_blockers`: the blockers that are taken, and those that are left. -/
def doTakeBlockers (count : ℕ) (blockers : List α) : Option (List α × List α) :=
  if blockers.length ≤ count then some (blockers, [])
  else do
    verify (count > 0)
    let (taken, rest) ← takeLoop count 0 blockers
    verify (count ≤ rest.length)
    some (taken, rest.drop count)

/-- The loop of `do_append_blockers`, with at most `fuel` rounds to go. -/
def appendLoop : ℕ → ℕ → List α → List α → List α
  | 0, _, blockers, _ => blockers
  | fuel + 1, i, blockers, toAppend =>
    match toAppend[i]? with
    | none => blockers
    | some blocker => appendLoop fuel (i + 1) (blockers ++ [blocker]) (toAppend.eraseIdx i)

/-- `do_append_blockers`. -/
def doAppendBlockers (blockers toAppend : List α) : List α :=
  if blockers.isEmpty then toAppend else appendLoop toAppend.length 0 blockers toAppend

/-- Each round of the loop takes one blocker. -/
theorem length_takeLoop {count i : ℕ} {blockers taken rest : List α}
    (h : takeLoop count i blockers = some (taken, rest)) :
    taken.length = count ∧ rest.length + count = blockers.length := by
  induction count generalizing i blockers taken with
  | zero =>
    obtain ⟨rfl, rfl⟩ := Prod.mk.inj (some.inj h)
    exact ⟨rfl, rfl⟩
  | succ count ih =>
    obtain ⟨blocker, hblocker, h⟩ := bind_eq_some_iff.mp h
    obtain ⟨⟨taken', rest'⟩, hloop, h⟩ := bind_eq_some_iff.mp h
    obtain ⟨rfl, rfl⟩ := Prod.mk.inj (some.inj h)
    obtain ⟨hlt, -⟩ := List.getElem?_eq_some_iff.mp hblocker
    obtain ⟨htaken, hrest⟩ := ih hloop
    rw [length_eraseIdx_of_lt hlt] at hrest
    exact ⟨congrArg (· + 1) htaken, by omega⟩

/-- What is left is short of as many blockers again as are taken. -/
theorem length_doTakeBlockers {count : ℕ} {blockers taken left : List α}
    (h : doTakeBlockers count blockers = some (taken, left)) (hlt : count < blockers.length) :
    taken.length = count ∧ left.length + count + count = blockers.length := by
  rw [doTakeBlockers, if_neg (not_le.mpr hlt)] at h
  simp only [verify_bind_eq_some] at h
  obtain ⟨-, h⟩ := h
  obtain ⟨⟨taken', rest⟩, hloop, h⟩ := bind_eq_some_iff.mp h
  simp only [verify_bind_eq_some] at h
  obtain ⟨hle, ⟨⟩⟩ := h
  obtain ⟨htaken, hrest⟩ := length_takeLoop hloop
  rw [length_drop]
  exact ⟨htaken, by omega⟩

end Blockers

/-- What `wake_n_requeue` did. -/
structure Requeue (T : Type) where
  /-- The blockers that are unblocked. -/
  woken : List (FutexBlocker T)
  /-- The blockers of the queue. -/
  left : List (FutexBlocker T)
  /-- The blockers of the target queue. -/
  target : List (FutexBlocker T)
  isEmpty : Bool
  isEmptyTarget : Bool
  /-- The value that is returned. -/
  result : ℕ
deriving DecidableEq

/-- `wake_n_requeue`, where `target` is the queue that `get_target_queue` returns, if it does. -/
def wakeNRequeue (wakeCount requeueCount : ℕ) (blockers : List (FutexBlocker T))
    (target : Option (List (FutexBlocker T))) : Option (Requeue T) := do
  let (left, woken) ← wakeLoop wakeCount none 0 blockers
  let unchanged := ⟨woken, left, target.getD [], left.isEmpty, false, woken.length⟩
  if requeueCount > 0 then
    let (taken, rest) ← doTakeBlockers requeueCount left
    if taken.isEmpty then some unchanged
    else
      match target with
      | some target =>
        let target := doAppendBlockers target taken
        some ⟨woken, rest, target, left.isEmpty, target.isEmpty, woken.length + taken.length⟩
      | none => some { unchanged with left := doAppendBlockers rest taken }
  else some unchanged

/-- The call completes, wakes and moves as many waiters as it should, leaves the others in their
order, and tells whether there are any. -/
def ConservesWaiters (wakeCount requeueCount : ℕ) (blockers : List (FutexBlocker T))
    (target : Option (List (FutexBlocker T))) : Prop :=
  ∃ requeue moved, wakeNRequeue wakeCount requeueCount blockers target = some requeue ∧
    (requeue.woken ++ (moved ++ requeue.left)).Perm blockers ∧
    requeue.woken.length = min wakeCount blockers.length ∧
    moved.length = min requeueCount (blockers.length - requeue.woken.length) ∧
    requeue.target.Perm (target.getD [] ++ moved) ∧ requeue.left.Sublist blockers ∧
    (requeue.isEmpty = true ↔ requeue.left = [])

variable {requeueCount : ℕ} {target : Option (List (FutexBlocker T))}

/-- With nothing to wake, the first waiter fails a `VERIFY`. -/
theorem wakeNRequeue_zero (hne : blockers ≠ []) :
    wakeNRequeue 0 requeueCount blockers target = none := by
  obtain ⟨blocker, rest, rfl⟩ := exists_cons_of_ne_nil hne
  simp [wakeNRequeue, wakeLoop, verify]

/-- Waiters that are to be moved get lost, or the queue that is empty then is said not to be. -/
theorem not_conservesWaiters_of_requeue (hwake : 0 < wakeCount) (hrequeue : 0 < requeueCount)
    (hlt : wakeCount < blockers.length) :
    ¬ConservesWaiters wakeCount requeueCount blockers target := by
  rintro ⟨requeue, moved, h, hperm, hwoken, hmoved, htarget, -, hempty⟩
  have htotal := hperm.length_eq
  have hmore := htarget.length_eq
  simp only [length_append] at htotal hmore
  have hlength : (blockers.drop wakeCount).length = blockers.length - wakeCount := length_drop
  have hne : blockers.drop wakeCount ≠ [] := ne_nil_of_length_pos (by omega)
  rw [wakeNRequeue, wakeLoop_none hwake, Nat.sub_zero] at h
  simp only [hrequeue, if_true, bind_eq_bind, bind_some] at h
  obtain ⟨⟨taken, rest⟩, htake, h⟩ := bind_eq_some_iff.mp h
  have htaken : taken.isEmpty = false := by
    rw [List.isEmpty_eq_false_iff]
    by_cases hle : (blockers.drop wakeCount).length ≤ requeueCount
    · rw [doTakeBlockers, if_pos hle] at htake
      exact (Prod.mk.inj (some.inj htake)).1 ▸ hne
    · have := (length_doTakeBlockers htake (not_le.mp hle)).1
      exact ne_nil_of_length_pos (by omega)
  simp only [htaken, Bool.false_eq_true, if_false] at h
  cases target with
  | none =>
    -- the blockers go back to the queue
    obtain rfl := some.inj h
    simp only [getD_none, length_nil] at hmore
    omega
  | some target =>
    obtain rfl := some.inj h
    by_cases hle : (blockers.drop wakeCount).length ≤ requeueCount
    · rw [doTakeBlockers, if_pos hle] at htake
      obtain ⟨-, rfl⟩ := Prod.mk.inj (some.inj htake)
      exact hne (List.isEmpty_iff.mp (hempty.mpr rfl))
    · have hlost := (length_doTakeBlockers htake (not_le.mp hle)).2
      simp only at htotal hwoken hmoved
      omega

/-- No waiter gets lost iff there is none, or some are to be woken and none is to be moved, be it
because no waiter is left. -/
theorem conservesWaiters_iff :
    ConservesWaiters wakeCount requeueCount blockers target ↔
      blockers = [] ∨ 0 < wakeCount ∧ (requeueCount = 0 ∨ blockers.length ≤ wakeCount) := by
  constructor
  · intro h
    by_contra hcon
    obtain ⟨hne, hcon⟩ := not_or.mp hcon
    rcases Nat.eq_zero_or_pos wakeCount with rfl | hwake
    · obtain ⟨requeue, -, hcall, -⟩ := h
      rw [wakeNRequeue_zero hne] at hcall
      cases hcall
    · obtain ⟨hrequeue, hlt⟩ := not_or.mp (not_and.mp hcon hwake)
      exact not_conservesWaiters_of_requeue hwake (Nat.pos_of_ne_zero hrequeue) (not_le.mp hlt) h
  · intro h
    obtain ⟨left, hleft⟩ : ∃ left, left = blockers.drop wakeCount := ⟨_, rfl⟩
    have hloop : wakeLoop wakeCount none 0 blockers = some (left, blockers.take wakeCount) := by
      rcases h with rfl | ⟨hwake, -⟩
      · simp [wakeLoop, hleft]
      · rw [wakeLoop_none hwake, hleft, Nat.sub_zero]
    have hnone : requeueCount = 0 ∨ left = [] := by
      rcases h with rfl | ⟨-, hzero | hle⟩
      · exact .inr (by simp [hleft])
      · exact .inl hzero
      · exact .inr (by rw [hleft, drop_eq_nil_of_le hle])
    refine ⟨⟨blockers.take wakeCount, left, target.getD [], left.isEmpty, false,
      (blockers.take wakeCount).length⟩, [], ?_, ?_, length_take, ?_, by simp,
      hleft ▸ drop_sublist .., List.isEmpty_iff⟩
    · rw [wakeNRequeue, hloop]
      rcases hnone with rfl | rfl
      · rfl
      · simp [doTakeBlockers]
    · rw [nil_append, hleft, take_append_drop]
    · have : left.length = blockers.length - (blockers.take wakeCount).length := by
        rw [hleft, length_drop, length_take]
        omega
      rw [← this]
      rcases hnone with rfl | rfl <;> simp

/-- Of three waiters one is woken, one is moved and one is lost. -/
theorem threeWaiters_lose_one :
    let waiters : List (FutexBlocker ℕ) := [⟨0, 0⟩, ⟨1, 0⟩, ⟨2, 0⟩]
    wakeNRequeue 1 1 waiters (some []) = some ⟨[⟨0, 0⟩], [], [⟨1, 0⟩], false, false, 2⟩ ∧
      ¬ConservesWaiters 1 1 waiters (some []) ∧ wakeNRequeue 0 1 waiters (some []) = none := by
  refine ⟨by decide, ?_, wakeNRequeue_zero (by decide)⟩
  exact not_conservesWaiters_of_requeue (by decide) (by decide) (by decide)

end FutexQueue

end Kernel
