import PranaOS.AK.Assertions
import PranaOS.AK.HashMap
import PranaOS.ToMathlib.Run

/-!
# `Kernel/Lock.cpp`

A reader/writer lock with recursion. Every function takes the spin lock `m_lock` by an atomic
exchange, looks at the mode of the lock and changes it, and gives `m_lock` back; a thread that cannot
have the lock waits or tries again. So what a thread does while it has `m_lock` is one step.

The functions assert much of what they find. `restore_lock` asserts in particular that it is called
with a mode to restore, and that the calling thread has no shared hold. The counters have 32 bits.
-/

namespace Kernel

open AK Transition Option

/-- `LockMode`. -/
inductive LockMode where
  | Unlocked
  | Shared
  | Exclusive
deriving DecidableEq, Repr

/-- `Lock`, without the wait queue. -/
structure Lock (T : Type) where
  /-- `m_mode`. -/
  mode : LockMode
  /-- `m_times_locked`. -/
  timesLocked : ℕ
  /-- `m_holder`. -/
  holder : Option T
  /-- `m_shared_holders`. -/
  sharedHolders : HashMap T ℕ
deriving DecidableEq, Repr

namespace Lock

variable {T : Type} [DecidableEq T]

/-- `Lock()`. -/
def create : Lock T where
  mode := .Unlocked
  timesLocked := 0
  holder := none
  sharedHolders := []

/-! ## The functions, while they have `m_lock` -/

variable (self : Lock T)

/-- `lock`; `none` in the second component means that the thread has to wait. -/
def lock (t : T) (mode : LockMode) : Option (Lock T × Bool) :=
  match self.mode with
  | .Unlocked => do
    verify (self.holder = none)
    verify (self.sharedHolders = [])
    verify (self.timesLocked = 0)
    if mode = .Exclusive then
      some ({ self with mode := mode, holder := some t, timesLocked := 1 }, true)
    else do
      verify (mode = .Shared)
      let sharedHolders := self.sharedHolders.set t 1
      some ({ self with mode := mode, sharedHolders := sharedHolders, timesLocked := 1 }, true)
  | .Exclusive => do
    verify (self.holder ≠ none)
    if self.holder ≠ some t then some (self, false)
    else do
      verify (self.sharedHolders = [])
      verify (mode = .Exclusive ∨ mode = .Shared)
      verify (self.timesLocked > 0)
      some ({ self with timesLocked := (self.timesLocked + 1) % 2 ^ 32 }, true)
  | .Shared => do
    verify (self.holder = none)
    if mode ≠ .Shared then some (self, false)
    else do
      verify (self.timesLocked > 0)
      verify (self.sharedHolders ≠ [])
      let count := match self.sharedHolders.find t with
        | some value => (value + 1) % 2 ^ 32
        | none => 1
      some ({ self with
        timesLocked := (self.timesLocked + 1) % 2 ^ 32
        sharedHolders := self.sharedHolders.set t count }, true)

/-- `unlock`. -/
def unlock (t : T) : Option (Lock T) :=
  let timesLocked := self.timesLocked - 1
  match self.mode with
  | .Unlocked => none
  | .Exclusive => do
    verify (self.timesLocked > 0)
    verify (self.holder = some t)
    verify (self.sharedHolders = [])
    if timesLocked = 0 then
      some { self with mode := .Unlocked, timesLocked := 0, holder := none }
    else some { self with timesLocked := timesLocked }
  | .Shared => do
    verify (self.timesLocked > 0)
    verify (self.holder = none)
    let value ← self.sharedHolders.find t
    verify (value > 0)
    let sharedHolders :=
      if value > 1 then self.sharedHolders.set t (value - 1) else self.sharedHolders.remove t
    if timesLocked = 0 then do
      verify (sharedHolders = [])
      some { self with mode := .Unlocked, timesLocked := 0, sharedHolders := sharedHolders }
    else some { self with timesLocked := timesLocked, sharedHolders := sharedHolders }

/-- `force_unlock_if_locked`: the lock, the mode it returns and `lock_count_to_restore`. -/
def forceUnlockIfLocked (t : T) : Option (Lock T × LockMode × ℕ) :=
  match self.mode with
  | .Exclusive =>
    if self.holder ≠ some t then some (self, .Unlocked, 0)
    else do
      verify (self.timesLocked > 0)
      some ({ self with mode := .Unlocked, timesLocked := 0, holder := none }, .Exclusive,
        self.timesLocked)
  | .Shared => do
    verify (self.holder = none)
    match self.sharedHolders.find t with
    | none => some (self, .Unlocked, 0)
    | some value => do
      verify (value > 0)
      verify (self.timesLocked ≥ value)
      let timesLocked := self.timesLocked - value
      some ({ self with
        mode := if timesLocked = 0 then .Unlocked else .Shared
        timesLocked := timesLocked
        sharedHolders := self.sharedHolders.remove t }, .Shared, value)
  | .Unlocked => some (self, .Unlocked, 0)

/-- `restore_lock`; `false` means that the thread has to try again. -/
def restoreLock (t : T) (mode : LockMode) (lockCount : ℕ) :
    Option (Lock T × Bool) :=
  match mode with
  | .Unlocked => none
  | .Exclusive =>
    if self.mode ≠ .Unlocked then some (self, false)
    else do
      verify (self.timesLocked = 0)
      verify (self.holder = none)
      verify (self.sharedHolders = [])
      some ({ self with mode := .Exclusive, timesLocked := lockCount, holder := some t }, true)
  | .Shared =>
    if self.mode = .Exclusive then some (self, false)
    else do
      verify (self.mode = .Shared ∨ self.timesLocked = 0)
      verify (self.holder = none)
      verify (self.mode = .Unlocked ↔ self.sharedHolders = [])
      -- `set` returns `InsertedNewEntry`.
      verify (self.sharedHolders.find t = none)
      some ({ self with
        mode := .Shared
        timesLocked := (self.timesLocked + lockCount) % 2 ^ 32
        sharedHolders := self.sharedHolders.set t lockCount }, true)

/-! ## Threads -/

/-- The calls. -/
inductive Call where
  | lock (mode : LockMode)
  | unlock
  | forceUnlockIfLocked
  | restoreLock (mode : LockMode) (lockCount : ℕ)
deriving DecidableEq, Repr

/-- Where a thread is. -/
inductive ThreadState where
  | idle
  /-- Before the exchange of `m_lock`, or having `m_lock`. -/
  | trying (call : Call)
  /-- In `m_queue.wait_forever`. -/
  | waiting (call : Call)
deriving DecidableEq, Repr

/-- What a thread holds: the mode and how many times. -/
abbrev Hold := LockMode × ℕ

/-- The hold of a thread. -/
def hold (t : T) : Hold :=
  match self.mode with
  | .Unlocked => (.Unlocked, 0)
  | .Exclusive => if self.holder = some t then (.Exclusive, self.timesLocked) else (.Unlocked, 0)
  | .Shared =>
    match self.sharedHolders.find t with
    | some value => (.Shared, value)
    | none => (.Unlocked, 0)

/-- The lock and the threads. -/
structure System (T : Type) where
  /-- The lock. -/
  lock : Lock T
  /-- The thread that has `m_lock`. -/
  spinLock : Option T
  /-- The threads. -/
  threads : T → ThreadState
  /-- For each thread, its hold before its last `force_unlock_if_locked`, and what that returned. -/
  forced : T → Option (Hold × Hold)
  /-- For each `restore_lock` with what the last `force_unlock_if_locked` of the thread returned: the
  hold before that, and the hold that was established. -/
  restored : List (Hold × Hold)

/-- What can happen next. -/
inductive Event (T : Type) where
  | call (t : T) (call : Call)
  /-- The thread exchanges `m_lock`. -/
  | exchange (t : T)
  /-- The thread has `m_lock` and does its work. -/
  | go (t : T)
  /-- The wait queue wakes the thread. -/
  | wake (t : T)

namespace System

/-- An unlocked lock. -/
def create : System T where
  lock := .create
  spinLock := none
  threads := fun _ => .idle
  forced := fun _ => none
  restored := []

variable (s : System T)

/-- The thread goes on at `state` with the lock `lock`, and gives `m_lock` back. -/
def release (t : T) (state : ThreadState) (lock : Lock T) : System T :=
  { s with
    lock := lock
    spinLock := none
    threads := Function.update s.threads t state }

/-- What a thread that has `m_lock` does. -/
def go (t : T) : Call → Option (System T)
  | .lock mode => do
    let (lock, acquired) ← s.lock.lock t mode
    some (s.release t (if acquired then .idle else .waiting (.lock mode)) lock)
  | .unlock => do
    let lock ← s.lock.unlock t
    some (s.release t .idle lock)
  | .forceUnlockIfLocked => do
    let (lock, returned) ← s.lock.forceUnlockIfLocked t
    let s' := s.release t .idle lock
    some { s' with forced := Function.update s.forced t (some (s.lock.hold t, returned)) }
  | .restoreLock mode lockCount => do
    let (lock, restored) ← s.lock.restoreLock t mode lockCount
    if !restored then some (s.release t (.trying (.restoreLock mode lockCount)) lock)
    else
      let s' := s.release t .idle lock
      match s.forced t with
      | some (before, returned) =>
        if returned = (mode, lockCount) then
          some { s' with restored := (before, lock.hold t) :: s.restored }
        else some s'
      | none => some s'

/-- One step. A thread that is not at the point in question stays where it is. -/
def step : Event T → Option (System T)
  | .call t call =>
    match s.threads t with
    | .idle => do
      match call with
      | .lock mode => verify (mode ≠ .Unlocked)
      | .restoreLock mode lockCount => verify (mode ≠ .Unlocked ∧ lockCount > 0)
      | _ => some ()
      some { s with threads := Function.update s.threads t (.trying call) }
    | _ => some s
  | .exchange t =>
    match s.threads t, s.spinLock with
    | .trying _, none => some { s with spinLock := some t }
    | _, _ => some s
  | .go t =>
    match s.threads t with
    | .trying call => if s.spinLock = some t then s.go t call else some s
    | _ => some s
  | .wake t =>
    match s.threads t with
    | .waiting call => some { s with threads := Function.update s.threads t (.trying call) }
    | _ => some s

/-! ## The property -/

/-- What the lock should look like while `m_lock` is free. -/
structure Valid (lock : Lock T) : Prop where
  exclusive : lock.mode = .Exclusive →
    (∃ t, lock.holder = some t) ∧ lock.sharedHolders = [] ∧ 1 ≤ lock.timesLocked
  shared : lock.mode = .Shared → lock.holder = none ∧ lock.timesLocked = lock.sharedHolders.sum
  unlocked : lock.mode = .Unlocked →
    lock.timesLocked = 0 ∧ lock.holder = none ∧ lock.sharedHolders = []

/-- While `m_lock` is free the lock is as it should be, and every `restore_lock` so far gave the
thread back what the `force_unlock_if_locked` before took. -/
def LockOk : Prop :=
  (s.spinLock = none → Valid s.lock) ∧ ∀ pair ∈ s.restored, pair.2 = pair.1

variable (lock : Lock T)

/-- The condition on a call: a thread unlocks only what it holds, and it restores a lock that it does
not hold shared, with a mode and a count to restore. -/
def CallOk (t : T) : Call → Prop
  | .lock mode => mode ≠ .Unlocked
  | .unlock => (lock.hold t).1 ≠ .Unlocked
  | .forceUnlockIfLocked => True
  | .restoreLock mode lockCount =>
    mode ≠ .Unlocked ∧ 0 < lockCount ∧ (lock.hold t).1 ≠ .Shared

/-- The counter of the lock does not pass the largest `u32` when the thread goes on: if it gets the
lock once more, or what it restores is added to what others hold. -/
def CounterOk (t : T) : ThreadState → Prop
  | .trying (.lock mode) =>
    (lock.mode = .Exclusive ∧ lock.holder = some t) ∨ (lock.mode = .Shared ∧ mode = .Shared) →
      lock.timesLocked + 1 < 2 ^ 32
  | .trying (.restoreLock mode lockCount) =>
    lockCount < 2 ^ 32 ∧
      (mode = .Shared → lock.mode = .Shared → lock.timesLocked + lockCount < 2 ^ 32)
  | _ => True

/-- The condition on a step. -/
def StepOk : Event T → Prop
  | .call t call => s.threads t = .idle → CallOk s.lock t call
  | .go t => s.spinLock = some t → CounterOk s.lock t (s.threads t)
  | _ => True

instance decidableCallOk (t : T) : (call : Call) → Decidable (CallOk lock t call)
  | .lock mode => inferInstanceAs (Decidable (mode ≠ .Unlocked))
  | .unlock => inferInstanceAs (Decidable ((lock.hold t).1 ≠ .Unlocked))
  | .forceUnlockIfLocked => isTrue trivial
  | .restoreLock mode lockCount =>
    inferInstanceAs (Decidable (mode ≠ .Unlocked ∧ 0 < lockCount ∧ (lock.hold t).1 ≠ .Shared))

instance decidableCounterOk (t : T) :
    (state : ThreadState) → Decidable (CounterOk lock t state)
  | .trying (.lock mode) => inferInstanceAs (Decidable
    ((lock.mode = .Exclusive ∧ lock.holder = some t) ∨ (lock.mode = .Shared ∧ mode = .Shared) →
      lock.timesLocked + 1 < 2 ^ 32))
  | .trying (.restoreLock mode lockCount) => inferInstanceAs (Decidable
    (lockCount < 2 ^ 32 ∧
      (mode = .Shared → lock.mode = .Shared → lock.timesLocked + lockCount < 2 ^ 32)))
  | .trying .unlock | .trying .forceUnlockIfLocked | .idle | .waiting _ => isTrue trivial

instance decidableStepOk : (event : Event T) → Decidable (StepOk s event)
  | .call t call => inferInstanceAs (Decidable (s.threads t = .idle → CallOk s.lock t call))
  | .go t => inferInstanceAs (Decidable (s.spinLock = some t → CounterOk s.lock t (s.threads t)))
  | .exchange _ | .wake _ => isTrue trivial

end System

/-! ## What each function keeps -/

/-- The lock with these shared holders, which is unlocked if there are none. -/
def ofHolders (holders : HashMap T ℕ) : Lock T :=
  ⟨if holders.sum = 0 then .Unlocked else .Shared, holders.sum, none, holders⟩

/-- The shared holders of a good lock. -/
structure GoodHolders (holders : HashMap T ℕ) : Prop where
  nodupKeys : holders.NodupKeys
  pos : ∀ t value, holders.find t = some value → 1 ≤ value

/-- What the lock looks like while `m_lock` is free, with what the functions rely on: it is held by
one thread, or by its shared holders. -/
def Good : Prop :=
  (∃ owner timesLocked, self = ⟨.Exclusive, timesLocked, some owner, []⟩ ∧ 0 < timesLocked) ∨
    ∃ holders, self = ofHolders holders ∧ GoodHolders holders

variable {self : Lock T} {t u : T} {mode : LockMode} {lockCount : ℕ}

theorem good_create : Good (create : Lock T) :=
  .inr ⟨[], rfl, HashMap.nodupKeys_nil, by simp⟩

namespace GoodHolders

variable {holders : HashMap T ℕ} (h : GoodHolders holders)

include h

theorem eq_nil (hsum : holders.sum = 0) : holders = [] := by
  refine HashMap.eq_nil_of_find fun u => eq_none_iff_forall_ne_some.mpr fun value hu => ?_
  have h1 := h.pos u value hu
  have h2 := HashMap.le_sum_of_find u hu
  omega

theorem good : Good (ofHolders holders) := .inr ⟨holders, rfl, h⟩

theorem hold_eq (u : T) :
    (ofHolders holders).hold u = match holders.find u with
      | some value => (.Shared, value)
      | none => (.Unlocked, 0) := by
  by_cases hsum : holders.sum = 0
  · obtain rfl := h.eq_nil hsum
    rfl
  · simp only [hold, ofHolders, if_neg hsum]

theorem set {count : ℕ} (hcount : 0 < count) : GoodHolders (holders.set t count) := by
  refine ⟨HashMap.nodupKeys_set _ _ h.nodupKeys, fun u value hu => ?_⟩
  rw [HashMap.find_set] at hu
  split at hu
  · exact some.inj hu ▸ hcount
  · exact h.pos u value hu

theorem remove : GoodHolders (holders.remove t) := by
  refine ⟨HashMap.nodupKeys_remove _ h.nodupKeys, fun u value hu => ?_⟩
  rw [HashMap.find_remove] at hu
  split at hu
  · simp at hu
  · exact h.pos u value hu

/-- The holds of the other threads after a set. -/
theorem hold_set {count : ℕ} (hcount : 0 < count) (u : T) (hu : u ≠ t) :
    (ofHolders (holders.set t count)).hold u = (ofHolders holders).hold u := by
  rw [(h.set hcount).hold_eq, h.hold_eq, HashMap.find_set, if_neg (Ne.symm hu)]

/-- The holds of the other threads after a removal. -/
theorem hold_remove (u : T) (hu : u ≠ t) :
    (ofHolders (holders.remove t)).hold u = (ofHolders holders).hold u := by
  rw [h.remove.hold_eq, h.hold_eq, HashMap.find_remove, if_neg (Ne.symm hu)]

end GoodHolders

/-- `lock` keeps the lock good and does not touch the holds of other threads. -/
theorem lock_spec (hgood : Good self) (hmode : mode ≠ .Unlocked)
    (hmax : (self.mode = .Exclusive ∧ self.holder = some t) ∨ (self.mode = .Shared ∧ mode = .Shared) →
      self.timesLocked + 1 < 2 ^ 32) :
    ∃ lock acquired, self.lock t mode = some (lock, acquired) ∧ Good lock ∧
      ∀ u, u ≠ t → lock.hold u = self.hold u := by
  rcases hgood with ⟨owner, timesLocked, rfl, hpos⟩ | ⟨holders, rfl, h⟩
  · by_cases howner : owner = t
    · subst howner
      refine ⟨⟨.Exclusive, timesLocked + 1, some owner, []⟩, true, ?_,
        .inl ⟨owner, _, rfl, by omega⟩, fun u hu => by simp [hold, Ne.symm hu]⟩
      cases mode <;> simp_all [lock]
    · exact ⟨_, false, by simp [lock, howner], .inl ⟨owner, _, rfl, hpos⟩, fun _ _ => rfl⟩
  · by_cases hsum : holders.sum = 0
    · obtain rfl := h.eq_nil hsum
      cases mode with
      | Unlocked => exact absurd rfl hmode
      | Exclusive =>
        exact ⟨⟨.Exclusive, 1, some t, []⟩, true, by simp [lock, ofHolders],
          .inl ⟨t, 1, rfl, one_pos⟩, fun u hu => by simp [hold, ofHolders, Ne.symm hu]⟩
      | Shared =>
        exact ⟨ofHolders (HashMap.set [] t 1), true, by simp [lock, ofHolders, HashMap.set, HashMap.sum],
          (h.set one_pos).good, h.hold_set one_pos⟩
    · by_cases hshared : mode = .Shared
      · subst hshared
        have hmax : holders.sum + 1 < 2 ^ 32 := hmax (Or.inr ⟨if_neg hsum, rfl⟩)
        have hne : holders ≠ [] := fun hnil => hsum (hnil ▸ rfl)
        -- The new count of the thread; no counter wraps around.
        obtain ⟨count, hcount, hcount', hsum'⟩ : ∃ count, 0 < count ∧
            (match holders.find t with
              | some value => (value + 1) % 2 ^ 32
              | none => 1) = count ∧
            (holders.set t count).sum = holders.sum + 1 := by
          have hset := fun count => HashMap.sum_set holders t count
          cases hfind : holders.find t with
          | none => exact ⟨1, one_pos, rfl, by simpa [hfind] using hset 1⟩
          | some value =>
            have hle := HashMap.le_sum_of_find t hfind
            refine ⟨value + 1, by omega, Nat.mod_eq_of_lt (by omega), ?_⟩
            have := hset (value + 1)
            simp only [hfind, getD_some] at this
            omega
        refine ⟨ofHolders (holders.set t count), true, ?_, (h.set hcount).good, h.hold_set hcount⟩
        simp only [lock, ofHolders, if_neg hsum, hcount', hsum', Nat.mod_eq_of_lt hmax]
        simp [hne, Nat.pos_of_ne_zero hsum]
      · exact ⟨_, false, by simp [lock, ofHolders, hsum, hshared], h.good, fun _ _ => rfl⟩

/-- `unlock` by a thread that holds the lock. -/
theorem unlock_spec (hgood : Good self) (hhold : (self.hold t).1 ≠ .Unlocked) :
    ∃ lock, self.unlock t = some lock ∧ Good lock ∧ ∀ u, u ≠ t → lock.hold u = self.hold u := by
  rcases hgood with ⟨owner, timesLocked, rfl, hpos⟩ | ⟨holders, rfl, h⟩
  · obtain rfl : owner = t := by
      by_contra h
      simp [hold, h] at hhold
    by_cases hlast : timesLocked - 1 = 0
    · exact ⟨⟨.Unlocked, 0, none, []⟩, by simp [unlock, hpos, hlast], good_create,
        fun u hu => by simp [hold, Ne.symm hu]⟩
    · exact ⟨⟨.Exclusive, timesLocked - 1, some owner, []⟩, by simp [unlock, hpos, hlast],
        .inl ⟨owner, _, rfl, Nat.pos_of_ne_zero hlast⟩, fun u hu => by simp [hold, Ne.symm hu]⟩
  · rw [h.hold_eq] at hhold
    cases hfind : holders.find t with
    | none => simp [hfind] at hhold
    | some value =>
      have hvalue : 0 < value := h.pos t value hfind
      have hle := HashMap.le_sum_of_find t hfind
      -- One hold of the thread less.
      obtain ⟨holders', hmap, h', hsum', hothers⟩ : ∃ holders',
          (if value > 1 then holders.set t (value - 1) else holders.remove t) = holders' ∧
          GoodHolders holders' ∧ holders.sum - 1 = holders'.sum ∧
          ∀ u, u ≠ t → (ofHolders holders').hold u = (ofHolders holders).hold u := by
        by_cases hone : value > 1
        · have hset := HashMap.sum_set holders t (value - 1)
          simp only [hfind, getD_some] at hset
          have hrest : 0 < value - 1 := by omega
          exact ⟨_, if_pos hone, h.set hrest, by omega, h.hold_set hrest⟩
        · have hremove := HashMap.sum_remove t h.nodupKeys
          simp only [hfind, getD_some] at hremove
          exact ⟨_, if_neg hone, h.remove, by omega, h.hold_remove⟩
      refine ⟨ofHolders holders', ?_, h'.good, hothers⟩
      have hpos : holders.sum ≠ 0 ∧ 0 < holders.sum := by omega
      by_cases hlast : holders'.sum = 0
      · simp [unlock, ofHolders, hfind, hpos, hvalue, hmap, hsum', h'.eq_nil hlast]
      · simp [unlock, ofHolders, hfind, hpos, hvalue, hmap, hsum', hlast]

/-- `force_unlock_if_locked` returns the hold of the thread and takes it away. -/
theorem forceUnlockIfLocked_spec (hgood : Good self) :
    ∃ lock, self.forceUnlockIfLocked t = some (lock, self.hold t) ∧ Good lock ∧
      ∀ u, u ≠ t → lock.hold u = self.hold u := by
  rcases hgood with ⟨owner, timesLocked, rfl, hpos⟩ | ⟨holders, rfl, h⟩
  · by_cases howner : owner = t
    · subst howner
      exact ⟨⟨.Unlocked, 0, none, []⟩, by simp [forceUnlockIfLocked, hold, hpos], good_create,
        fun u hu => by simp [hold, Ne.symm hu]⟩
    · exact ⟨_, by simp [forceUnlockIfLocked, hold, howner], .inl ⟨owner, _, rfl, hpos⟩, fun _ _ => rfl⟩
  · by_cases hsum : holders.sum = 0
    · obtain rfl := h.eq_nil hsum
      exact ⟨_, rfl, h.good, fun _ _ => rfl⟩
    · cases hfind : holders.find t with
      | none =>
        exact ⟨_, by simp [forceUnlockIfLocked, ofHolders, hold, hsum, hfind], h.good, fun _ _ => rfl⟩
      | some value =>
        have hvalue : 0 < value := h.pos t value hfind
        have hle := HashMap.le_sum_of_find t hfind
        have hremove := HashMap.sum_remove t h.nodupKeys
        simp only [hfind, getD_some] at hremove
        have hsum' : holders.sum - value = (holders.remove t).sum := by omega
        refine ⟨ofHolders (holders.remove t), ?_, h.remove.good, h.hold_remove⟩
        simp [forceUnlockIfLocked, ofHolders, hold, hsum, hfind, hvalue, hle, hsum']

/-- `restore_lock` by a thread without a shared hold either leaves the lock as it is or gives the
thread the hold it asks for. -/
theorem restoreLock_spec (hgood : Good self) (hmode : mode ≠ .Unlocked) (hcount : 0 < lockCount)
    (hhold : (self.hold t).1 ≠ .Shared) (hlt : lockCount < 2 ^ 32)
    (hmax : mode = .Shared → self.mode = .Shared → self.timesLocked + lockCount < 2 ^ 32) :
    ∃ lock restored, self.restoreLock t mode lockCount = some (lock, restored) ∧ Good lock ∧
      (∀ u, u ≠ t → lock.hold u = self.hold u) ∧
        (restored = true → lock.hold t = (mode, lockCount)) ∧ (restored = false → lock = self) := by
  rcases hgood with ⟨owner, timesLocked, rfl, hpos⟩ | ⟨holders, rfl, h⟩
  · refine ⟨_, false, ?_, .inl ⟨owner, _, rfl, hpos⟩, fun _ _ => rfl, by simp, fun _ => rfl⟩
    cases mode <;> simp_all [restoreLock]
  · cases mode with
    | Unlocked => exact absurd rfl hmode
    | Exclusive =>
      by_cases hsum : holders.sum = 0
      · obtain rfl := h.eq_nil hsum
        exact ⟨⟨.Exclusive, lockCount, some t, []⟩, true, by simp [restoreLock, ofHolders],
          .inl ⟨t, lockCount, rfl, hcount⟩, fun u hu => by simp [hold, ofHolders, Ne.symm hu], by simp [hold],
          by simp⟩
      · exact ⟨_, false, by simp [restoreLock, ofHolders, hsum], h.good, fun _ _ => rfl, by simp,
          fun _ => rfl⟩
    | Shared =>
      have hfind : holders.find t = none := by
        cases hfind : holders.find t with
        | none => rfl
        | some value => simp [h.hold_eq, hfind] at hhold
      have hset : (holders.set t lockCount).sum = holders.sum + lockCount := by
        simpa [hfind] using HashMap.sum_set holders t lockCount
      have hmod : (holders.sum + lockCount) % 2 ^ 32 = holders.sum + lockCount := by
        by_cases hsum : holders.sum = 0
        · exact Nat.mod_eq_of_lt (by omega)
        · exact Nat.mod_eq_of_lt (hmax rfl (if_neg hsum))
      refine ⟨ofHolders (holders.set t lockCount), true, ?_, (h.set hcount).good, h.hold_set hcount,
        by simp [(h.set hcount).hold_eq], by simp⟩
      by_cases hsum : holders.sum = 0
      · obtain rfl := h.eq_nil hsum
        simp only [restoreLock, ofHolders, hmod, hset]
        simp [hcount.ne']
      · have hne : holders ≠ [] := fun hnil => hsum (hnil ▸ rfl)
        simp only [restoreLock, ofHolders, hmod, hset]
        simp [hfind, hne, hsum]

/-! ## Runs -/

namespace System

/-- What holds in every state reached by steps that meet the condition. -/
structure Inv (s : System T) : Prop where
  good : Good s.lock
  callOk : ∀ t call, s.threads t = .trying call ∨ s.threads t = .waiting call → CallOk s.lock t call
  forced : ∀ t before returned, s.forced t = some (before, returned) → returned = before
  restored : ∀ pair ∈ s.restored, pair.2 = pair.1

variable {s s' : System T}

/-- What a thread relies on depends on its own hold only. -/
theorem callOk_congr {lock lock' : Lock T} {call : Call} (h : lock'.hold t = lock.hold t) :
    CallOk lock' t call ↔ CallOk lock t call := by
  cases call <;> simp [CallOk, h]

/-- A thread gives `m_lock` back, and the holds of the other threads are as before. -/
theorem inv_release (hI : Inv s) {lock : Lock T} {state : ThreadState} (hgood : Good lock)
    (hothers : ∀ u, u ≠ t → lock.hold u = s.lock.hold u)
    (hstate : ∀ call, state = .trying call ∨ state = .waiting call → CallOk lock t call) :
    Inv (s.release t state lock) where
  good := hgood
  callOk u call h := by
    by_cases hu : u = t
    · subst hu
      exact hstate call (by simpa [release] using h)
    · have hu' := hI.callOk u call (by simpa [release, hu] using h)
      exact (callOk_congr (hothers u hu)).mpr hu'
  forced := hI.forced
  restored := hI.restored

/-- What a thread does while it has `m_lock`. -/
theorem go_spec (hI : Inv s) {call : Call} (hcall : s.threads t = .trying call)
    (hcounter : CounterOk s.lock t (.trying call)) :
    ∃ s', s.go t call = some s' ∧ Inv s' := by
  have hok := hI.callOk t call (Or.inl hcall)
  cases call with
  | lock mode =>
    obtain ⟨lock, acquired, hlock', hgood, hothers⟩ := lock_spec (t := t) hI.good hok hcounter
    simp only [go, hlock', bind_eq_bind, bind_some]
    refine ⟨_, rfl, inv_release hI hgood hothers ?_⟩
    rintro call (h | h)
    · split at h <;> simp at h
    · split at h
      · simp at h
      · obtain rfl := (ThreadState.waiting.injEq _ _).mp h
        exact hok
  | unlock =>
    obtain ⟨lock, hunlock, hgood, hothers⟩ := unlock_spec hI.good hok
    simp only [go, hunlock, bind_eq_bind, bind_some]
    exact ⟨_, rfl, inv_release hI hgood hothers (by simp)⟩
  | forceUnlockIfLocked =>
    obtain ⟨lock, hforce, hgood, hothers⟩ := forceUnlockIfLocked_spec (t := t) hI.good
    have hI' : Inv (s.release t .idle lock) := inv_release hI hgood hothers (by simp)
    simp only [go, hforce, bind_eq_bind, bind_some]
    refine ⟨_, rfl, hI'.good, hI'.callOk, ?_, hI'.restored⟩
    intro u before returned h
    by_cases hu : u = t
    · subst hu
      obtain ⟨rfl, rfl⟩ : s.lock.hold u = before ∧ s.lock.hold u = returned := by simpa using h
      rfl
    · exact hI.forced u before returned (by simpa [release, hu] using h)
  | restoreLock mode lockCount =>
    obtain ⟨hmode, hcount, hhold⟩ := hok
    obtain ⟨lock, restored, hrestore', hgood, hothers, hdone, hagain⟩ :=
      restoreLock_spec (t := t) hI.good hmode hcount hhold hcounter.1 hcounter.2
    simp only [go, hrestore', bind_eq_bind, bind_some]
    cases restored with
    | false =>
      obtain rfl := hagain rfl
      refine ⟨_, rfl, inv_release hI hgood hothers ?_⟩
      rintro call (h | h)
      · obtain rfl := (ThreadState.trying.injEq _ _).mp h
        exact ⟨hmode, hcount, hhold⟩
      · simp at h
    | true =>
      have hI' : Inv (s.release t .idle lock) := inv_release hI hgood hothers (by simp)
      simp only [Bool.not_true, Bool.false_eq_true, if_false]
      split
      next before returned hforced =>
        split
        next hreturned =>
          refine ⟨_, rfl, hI'.good, hI'.callOk, hI'.forced, ?_⟩
          intro pair hpair
          rcases List.mem_cons.mp hpair with rfl | hpair
          · -- What was returned was the hold before, and it is the hold again.
            have hbefore := hI.forced t before returned hforced
            exact (hdone rfl).trans (hreturned.symm.trans hbefore)
          · exact hI.restored pair hpair
        next => exact ⟨_, rfl, hI'⟩
      next => exact ⟨_, rfl, hI'⟩

/-- Every step that meets the condition completes and keeps the invariant. -/
theorem step_spec (hI : Inv s) {event : Event T} (hok : StepOk s event) :
    ∃ s', s.step event = some s' ∧ Inv s' := by
  -- A thread gets to another point of a call, and nothing else changes.
  have hthread : ∀ t call, CallOk s.lock t call →
      Inv { s with threads := Function.update s.threads t (.trying call) } := by
    intro t call hcall
    refine ⟨hI.good, fun u call' h => ?_, hI.forced, hI.restored⟩
    by_cases hu : u = t
    · subst hu
      obtain rfl : call = call' := by simpa using h
      exact hcall
    · exact hI.callOk u call' (by simpa [hu] using h)
  cases event with
  | call t call =>
    simp only [step, StepOk] at hok ⊢
    split
    next hidle =>
      have hok := hok hidle
      cases call with
      | lock mode =>
        have hmode : mode ≠ .Unlocked := hok
        refine ⟨_, ?_, hthread t (.lock mode) hmode⟩
        simp [hmode]
      | unlock => exact ⟨_, rfl, hthread t _ hok⟩
      | forceUnlockIfLocked => exact ⟨_, rfl, hthread t _ trivial⟩
      | restoreLock mode lockCount =>
        obtain ⟨hmode, hcount, hhold⟩ := hok
        refine ⟨_, ?_, hthread t (.restoreLock mode lockCount) ⟨hmode, hcount, hhold⟩⟩
        simp [hmode, hcount]
    next => exact ⟨s, rfl, hI⟩
  | exchange t =>
    simp only [step]
    split
    · exact ⟨_, rfl, hI.good, hI.callOk, hI.forced, hI.restored⟩
    · exact ⟨s, rfl, hI⟩
  | go t =>
    simp only [step, StepOk] at hok ⊢
    split
    next call hcall =>
      split
      next hspin =>
        exact go_spec hI hcall (hcall ▸ hok hspin)
      next => exact ⟨s, rfl, hI⟩
    next => exact ⟨s, rfl, hI⟩
  | wake t =>
    simp only [step]
    split
    next call hcall => exact ⟨_, rfl, hthread t call (hI.callOk t call (Or.inr hcall))⟩
    next => exact ⟨s, rfl, hI⟩

theorem inv_create : Inv (create : System T) where
  good := good_create
  callOk t call h := by simp [create] at h
  forced t before returned h := by simp [create] at h
  restored pair h := by simp [create] at h

theorem Inv.lockOk (hI : Inv s) : LockOk s := by
  refine ⟨fun _ => ?_, hI.restored⟩
  rcases hI.good with ⟨owner, timesLocked, hlock, hpos⟩ | ⟨holders, hlock, h⟩
  · rw [hlock]
    exact ⟨fun _ => ⟨⟨owner, rfl⟩, rfl, hpos⟩, by simp, by simp⟩
  · rw [hlock]
    by_cases hsum : holders.sum = 0
    · obtain rfl := h.eq_nil hsum
      exact ⟨by simp [ofHolders, hsum], by simp [ofHolders, hsum], fun _ => ⟨rfl, rfl, rfl⟩⟩
    · exact ⟨by simp [ofHolders, hsum], fun _ => ⟨rfl, rfl⟩, by simp [ofHolders, hsum]⟩

/-- **The reader/writer lock.** In a run of any threads whose steps meet the condition, no assertion
fails, the lock is always as it should be, and restoring a lock gives back what was taken. -/
theorem lockOk_of_meets (events : List (Event T)) (h : Meets step StepOk (create : System T) events) :
    Safe step LockOk (create : System T) events := by
  exact Transition.safe_of_meets (I := Inv) (fun _ hI => hI.lockOk)
    (fun _ _ hI hok => step_spec hI hok) inv_create h

/-- Two readers, one of which gives its hold up and takes it again. -/
theorem lockOk_of_meets_two_readers :
    Safe step LockOk (create : System (Fin 2))
      [.call 0 (.lock .Shared), .exchange 0, .go 0, .call 1 (.lock .Shared), .exchange 1, .go 1,
        .call 0 .forceUnlockIfLocked, .exchange 0, .go 0,
        .call 0 (.restoreLock .Shared 1), .exchange 0, .go 0, .call 1 .unlock, .exchange 1, .go 1] := by
  apply lockOk_of_meets
  decide

/-! ## What happens otherwise -/

/-- The steps of a call of `lock` that finds `m_lock` free. -/
def lockCall (t : T) : List (Event T) := [.call t (.lock .Exclusive), .exchange t, .go t]

/-- The thread holds the lock exclusively, `timesLocked` times by the counter. -/
def Holds (s : System T) (t : T) (timesLocked : ℕ) : Prop :=
  s.lock = ⟨.Exclusive, timesLocked, some t, []⟩ ∧ s.spinLock = none ∧ s.threads t = .idle

/-- A holder locks once more. -/
theorem run_lockCall {timesLocked : ℕ} (h : Holds s t timesLocked) (hpos : 0 < timesLocked) :
    ∃ s', run step s (lockCall t) = some s' ∧ Holds s' t ((timesLocked + 1) % 2 ^ 32) := by
  obtain ⟨hlock, hspin, hidle⟩ := h
  have hrun : run step s (lockCall t) = some (release
      { s with threads := Function.update s.threads t (.trying (.lock .Exclusive)) } t .idle
      ⟨.Exclusive, (timesLocked + 1) % 2 ^ 32, some t, []⟩) := by
    simp [lockCall, run, step, hidle, hspin, go, hlock, Lock.lock, hpos, release]
  exact ⟨_, hrun, rfl, rfl, Function.update_self ..⟩

/-- A holder locks `n` more times, and the counter does not wrap around. -/
theorem run_lockCalls {timesLocked : ℕ} (n : ℕ) (h : Holds s t timesLocked) (hpos : 0 < timesLocked)
    (hmax : timesLocked + n < 2 ^ 32) :
    ∃ s', run step s (List.replicate n (lockCall t)).flatten = some s' ∧
      Holds s' t (timesLocked + n) := by
  induction n generalizing s timesLocked with
  | zero => exact ⟨s, rfl, h⟩
  | succ n ih =>
    obtain ⟨u, hrun, hu⟩ := run_lockCall h hpos
    rw [Nat.mod_eq_of_lt (by omega)] at hu
    obtain ⟨s', hrun', hs'⟩ := ih hu (by omega) (by omega)
    refine ⟨s', ?_, by rwa [show timesLocked + (n + 1) = timesLocked + 1 + n by omega]⟩
    rw [List.replicate_succ, List.flatten_cons, run_append_eq_some]
    exact ⟨u, hrun, hrun'⟩

/-- Without the condition assertions fail and the lock is not as it should be. A thread whose shared
hold was taken by `force_unlock_if_locked` locks again, and then restores the hold: the assertion
that it has no entry among the shared holders fails. A thread locks `2 ^ 32` times: the lock is in
exclusive mode with a counter of zero. -/
theorem restore_fails_and_counter_wraps :
    (run step (create : System (Fin 1))
      [.call 0 (.lock .Shared), .exchange 0, .go 0,
        .call 0 .forceUnlockIfLocked, .exchange 0, .go 0,
        .call 0 (.lock .Shared), .exchange 0, .go 0,
        .call 0 (.restoreLock .Shared 1), .exchange 0, .go 0]).isNone = true ∧
    ∃ s', run step (create : System (Fin 1))
        (lockCall 0 ++ ((List.replicate (2 ^ 32 - 2) (lockCall 0)).flatten ++ lockCall 0)) = some s' ∧
      s'.spinLock = none ∧ s'.lock.mode = .Exclusive ∧ s'.lock.timesLocked = 0 := by
  refine ⟨rfl, ?_⟩
  have hfirst : ∃ s, run step (create : System (Fin 1)) (lockCall 0) = some s ∧ Holds s 0 1 :=
    ⟨_, rfl, rfl, rfl, rfl⟩
  obtain ⟨s1, hrun1, h1⟩ := hfirst
  obtain ⟨s2, hrun2, h2⟩ := run_lockCalls (2 ^ 32 - 2) h1 (by omega) (by norm_num)
  obtain ⟨s3, hrun3, h3⟩ := run_lockCall h2 (by omega)
  refine ⟨s3, ?_, h3.2.1, by rw [h3.1], by rw [h3.1]; norm_num⟩
  rw [run_append_eq_some]
  refine ⟨s1, hrun1, ?_⟩
  rw [run_append_eq_some]
  exact ⟨s2, hrun2, hrun3⟩

end System

end Lock

end Kernel
