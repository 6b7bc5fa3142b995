import PranaOS.ToMathlib.Run
import Mathlib.Tactic

/-!
# `LibC/pthread_integration.cpp`: mutexes

`__pthread_mutex_lock`, `__pthread_mutex_trylock` and `__pthread_mutex_unlock`, called by any number of
threads for one mutex. Every access to `lock`, `owner` or `level` is a step of its own, where `level++`
and `level--` are two, and the memory is sequentially consistent. `type` never changes.

Only the thread that has set `lock` writes `owner` and `level`: a thread whose compare-exchange failed
finds its own id in `owner` only if it is that thread. `level` is an `int`, and nothing keeps the
recursive type from making it overflow (`nested_locks_overflow`).
-/

namespace LibC

open Transition Function List

/-- `pthread_mutex_t`. The id 0, which no thread has, is `none`. -/
structure PthreadMutex (T : Type) where
  lock : ℕ
  owner : Option T
  level : ℤ
  /-- `type` is `__PTHREAD_MUTEX_RECURSIVE`; otherwise it is `__PTHREAD_MUTEX_NORMAL`. -/
  recursive : Bool

namespace PthreadMutex

/-- `__pthread_mutex_init`. -/
def init (T : Type) (recursive : Bool) : PthreadMutex T := ⟨0, none, 0, recursive⟩

/-- The calls that set `lock`. -/
inductive LockCall where
  | lock
  | trylock
deriving DecidableEq

/-- The access that a thread makes next. -/
inductive Access where
  /-- None: the thread is not in a call. -/
  | none
  /-- `atomic_compare_exchange_strong(&mutex->lock, expected, 1u)`. -/
  | compareExchange (call : LockCall)
  /-- `mutex->owner == this_thread`, after the compare-exchange failed. -/
  | testOwner (call : LockCall)
  /-- `mutex->level++`: the value is read, -/
  | readLevelUp
  /-- and the next one is written. -/
  | writeLevelUp (level : ℤ)
  /-- `mutex->owner = this_thread`. -/
  | writeOwner
  /-- `mutex->level = 0`. -/
  | resetLevel
  /-- `mutex->level > 0`. -/
  | testLevel
  /-- `mutex->level--`: the value is read, -/
  | readLevelDown
  /-- and the previous one is written. -/
  | writeLevelDown (level : ℤ)
  /-- `mutex->owner = 0`. -/
  | clearOwner
  /-- `atomic_store(&mutex->lock, 0u)`. -/
  | clearLock
deriving DecidableEq

/-- A thread. -/
structure Thread where
  next : Access
  /-- Its successful calls of `lock` and `trylock`, less its calls of `unlock`. -/
  held : ℕ
  /-- Its last call returned `EBUSY`, and not 0. -/
  busy : Bool

namespace Thread

variable (thread : Thread)

/-- A call of `lock` or `trylock` returns 0. -/
def acquired : Thread := ⟨.none, thread.held + 1, false⟩

/-- A call of `unlock` returns 0. -/
def released : Thread := ⟨.none, thread.held - 1, false⟩

/-- The mutex could not be had: `lock` yields and tries again, `trylock` returns `EBUSY`. -/
def missed : LockCall → Thread
  | .lock => { thread with next := .compareExchange .lock }
  | .trylock => { thread with next := .none, busy := true }

end Thread

variable {T : Type} [DecidableEq T]

/-- The next access of the thread `t`. The overflow of an `int` is undefined. -/
def access (mutex : PthreadMutex T) (t : T) (thread : Thread) : Option (PthreadMutex T × Thread) :=
  match thread.next with
  | .none => some (mutex, thread)
  | .compareExchange call =>
    if mutex.lock = 0 then some ({ mutex with lock := 1 }, { thread with next := .writeOwner })
    else if mutex.recursive then some (mutex, { thread with next := .testOwner call })
    else some (mutex, thread.missed call)
  | .testOwner call =>
    if mutex.owner = some t then some (mutex, { thread with next := .readLevelUp })
    else some (mutex, thread.missed call)
  | .readLevelUp => some (mutex, { thread with next := .writeLevelUp mutex.level })
  | .writeLevelUp level =>
    if level + 1 < 2 ^ 31 then some ({ mutex with level := level + 1 }, thread.acquired) else none
  | .writeOwner => some ({ mutex with owner := some t }, { thread with next := .resetLevel })
  | .resetLevel => some ({ mutex with level := 0 }, thread.acquired)
  | .testLevel =>
    some (mutex, { thread with next := if mutex.level > 0 then .readLevelDown else .clearOwner })
  | .readLevelDown => some (mutex, { thread with next := .writeLevelDown mutex.level })
  | .writeLevelDown level => some ({ mutex with level := level - 1 }, thread.released)
  | .clearOwner => some ({ mutex with owner := none }, { thread with next := .clearLock })
  | .clearLock => some ({ mutex with lock := 0 }, thread.released)

/-- The mutex and the threads. -/
structure System (T : Type) where
  mutex : PthreadMutex T
  threads : T → Thread

/-- What can happen next. -/
inductive Event (T : Type) where
  | call (t : T) (call : LockCall)
  | unlock (t : T)
  | access (t : T)

namespace System

/-- No thread has called anything yet. -/
def create (T : Type) (recursive : Bool) : System T := ⟨init T recursive, fun _ => ⟨.none, 0, false⟩⟩

variable (s : System T)

/-- A thread goes on. -/
def setThread (t : T) (mutex : PthreadMutex T) (thread : Thread) : System T :=
  ⟨mutex, Function.update s.threads t thread⟩

/-- One step. A thread in a call begins no other, and only a thread that holds the mutex unlocks it. -/
def step : Event T → Option (System T)
  | .call t call =>
    if (s.threads t).next = .none then
      some (s.setThread t s.mutex { s.threads t with next := .compareExchange call })
    else some s
  | .unlock t =>
    if (s.threads t).next = .none ∧ 0 < (s.threads t).held then
      some (s.setThread t s.mutex
        { s.threads t with next := if s.mutex.recursive then .testLevel else .clearOwner })
    else some s
  | .access t =>
    (s.mutex.access t (s.threads t)).map fun (mutex, thread) => s.setThread t mutex thread

/-! ## The property -/

/-- The thread has had more successful calls of `lock` and `trylock` than it has unlocked, or is about to
return from one. -/
def Holds (t : T) : Prop :=
  0 < (s.threads t).held ∨ (s.threads t).next = .writeOwner ∨ (s.threads t).next = .resetLevel

/-- At most one thread holds the mutex. The mutex is free if and only if none does, that is, after as many
calls of `unlock` as there were successful calls of `lock` and `trylock`. If the type is normal,
`trylock` returns `EBUSY` for a mutex that a thread holds. -/
structure MutexOk (s : System T) : Prop where
  exclusive : ∀ t u, s.Holds t → s.Holds u → t = u
  free_iff : s.mutex.lock = 0 ↔ ∀ t, ¬ s.Holds t
  busy : s.mutex.recursive = false → ∀ t u, (s.threads t).next = .compareExchange .trylock →
    s.Holds u → ∃ s', s.step (.access t) = some s' ∧ s'.mutex = s.mutex ∧
      (s'.threads t).next = .none ∧ (s'.threads t).busy = true

end System

/-- The value that the thread is about to write to `level` in `level++`. -/
def Access.newLevel : Access → ℤ
  | .writeLevelUp level => level + 1
  | _ => 0

/-- The condition on a step: `level++` does not overflow. -/
def System.StepOk (s : System T) : Event T → Prop
  | .access t => (s.threads t).next.newLevel < 2 ^ 31
  | _ => True

instance System.decidableStepOk (s : System T) : (event : Event T) → Decidable (s.StepOk event)
  | .access t => inferInstanceAs (Decidable ((s.threads t).next.newLevel < 2 ^ 31))
  | .call .. | .unlock _ => isTrue trivial

/-! ## The invariant -/

/-- A thread that has not set `lock`. -/
def Thread.Outside (thread : Thread) : Prop :=
  thread.held = 0 ∧ (thread.next = .none ∨ ∃ call, thread.next = .compareExchange call ∨
    thread.next = .testOwner call)

/-- The fields belong to the thread, and count how often it has to unlock the mutex. -/
structure Owned (mutex : PthreadMutex T) (t : T) (held : ℕ) : Prop where
  owner : mutex.owner = some t
  level : 0 ≤ mutex.level
  held : (held : ℤ) = mutex.level + 1
  normal : mutex.recursive = false → mutex.level = 0

/-- A thread that has set `lock`: what the fields are, depending on what it does next. -/
def Holding (mutex : PthreadMutex T) (t : T) (thread : Thread) : Prop :=
  mutex.lock = 1 ∧
    match thread.next with
    | .writeOwner => mutex.owner = none ∧ thread.held = 0
    | .resetLevel => mutex.owner = some t ∧ thread.held = 0
    | .clearLock => mutex.owner = none ∧ thread.held = 1
    | .testOwner _ | .readLevelUp => Owned mutex t thread.held ∧ mutex.recursive = true
    | .writeLevelUp level => Owned mutex t thread.held ∧ mutex.recursive = true ∧ level = mutex.level
    | .readLevelDown => Owned mutex t thread.held ∧ 0 < mutex.level
    | .writeLevelDown level => Owned mutex t thread.held ∧ 0 < mutex.level ∧ level = mutex.level
    | .clearOwner => Owned mutex t thread.held ∧ mutex.level = 0
    | _ => Owned mutex t thread.held

variable {mutex mutex' : PthreadMutex T} {t : T} {thread thread' : Thread}

omit [DecidableEq T] in
theorem Holding.owner (h : Holding mutex t thread) : mutex.owner = none ∨ mutex.owner = some t := by
  obtain ⟨-, h⟩ := h
  split at h
  case h_1 | h_3 => exact .inl h.1
  case h_2 => exact .inr h.1
  case h_10 => exact .inr h.owner
  all_goals exact .inr h.1.owner

/-- Only `level++` can be undefined. -/
theorem isSome_access_iff : (mutex.access t thread).isSome ↔ thread.next.newLevel < 2 ^ 31 := by
  unfold access Access.newLevel
  split <;> (try split_ifs) <;> simp_all

/-- A thread that has not set `lock` sets it if it is clear, and changes nothing else. -/
theorem access_outside (h : thread.Outside) (howner : mutex.owner ≠ some t)
    (haccess : mutex.access t thread = some (mutex', thread')) :
    mutex' = mutex ∧ thread'.Outside ∨ mutex.lock = 0 ∧ mutex' = { mutex with lock := 1 } ∧
      thread' = { thread with next := .writeOwner } := by
  have hmissed : ∀ call, (thread.missed call).Outside := by
    rintro (_ | _)
    · exact ⟨h.1, .inr ⟨.lock, .inl rfl⟩⟩
    · exact ⟨h.1, .inl rfl⟩
  rcases h with ⟨hheld, hnext | ⟨call, hnext | hnext⟩⟩ <;> simp only [access, hnext] at haccess
  · cases haccess
    exact .inl ⟨rfl, hheld, .inl hnext⟩
  · split_ifs at haccess with hfree <;> cases haccess
    · exact .inr ⟨hfree, rfl, rfl⟩
    · exact .inl ⟨rfl, hheld, .inr ⟨call, .inr rfl⟩⟩
    · exact .inl ⟨rfl, hmissed call⟩
  · rw [if_neg howner] at haccess
    cases haccess
    exact .inl ⟨rfl, hmissed call⟩

/-- The thread that has set `lock` keeps it, or clears it when it has unlocked the mutex as often as it
has locked it. -/
theorem access_holding (h : Holding mutex t thread)
    (haccess : mutex.access t thread = some (mutex', thread')) :
    Holding mutex' t thread' ∨ mutex'.lock = 0 ∧ mutex'.owner = none ∧ thread'.Outside := by
  obtain ⟨next, held, busy⟩ := thread
  obtain ⟨hlock, h⟩ := h
  cases next <;> simp only [access, hlock, one_ne_zero, if_false] at haccess
  case compareExchange call =>
    split_ifs at haccess with hrecursive <;> cases haccess
    · exact .inl ⟨hlock, h, hrecursive⟩
    · cases call <;> exact .inl ⟨hlock, h⟩
  case testOwner call =>
    rw [if_pos h.1.owner] at haccess
    cases haccess
    exact .inl ⟨hlock, h⟩
  case writeLevelUp level =>
    obtain ⟨⟨howner, hpos, hheld, -⟩, hrecursive, rfl⟩ := h
    split_ifs at haccess
    cases haccess
    refine .inl ⟨rfl, howner, ?_, ?_, fun hnormal => ?_⟩
    · simp only
      omega
    · simp [Thread.acquired, hheld]
    · simp [hrecursive] at hnormal
  case testLevel =>
    cases haccess
    have hlevel := h.level
    refine .inl ⟨hlock, ?_⟩
    split_ifs with hpos
    · exact ⟨h, hpos⟩
    · exact ⟨h, by omega⟩
  case writeLevelDown level =>
    obtain ⟨⟨howner, -, hheld, hnormal⟩, hpos, rfl⟩ := h
    cases haccess
    simp only at hheld
    refine .inl ⟨rfl, howner, ?_, ?_, fun hrecursive => ?_⟩
    · simp only
      omega
    · simp only [Thread.released]
      omega
    · have := hnormal hrecursive
      omega
  all_goals cases haccess
  case none => exact .inl ⟨hlock, h⟩
  case readLevelUp => exact .inl ⟨hlock, h.1, h.2, rfl⟩
  case writeOwner => exact .inl ⟨rfl, rfl, h.2⟩
  case resetLevel => exact .inl ⟨rfl, h.1, le_rfl, by simpa [Thread.acquired] using h.2, fun _ => rfl⟩
  case readLevelDown => exact .inl ⟨hlock, h.1, h.2, rfl⟩
  case clearOwner =>
    have hheld := h.1.held
    rw [h.2] at hheld
    exact .inl ⟨rfl, rfl, by simpa using hheld⟩
  case clearLock =>
    obtain ⟨howner, hheld⟩ := h
    exact .inr ⟨rfl, howner, Nat.sub_eq_zero_of_le hheld.le, .inl rfl⟩

namespace System

/-- The mutex is free, or one thread has set `lock`. -/
inductive Inv (s : System T) : Prop
  | free : s.mutex.lock = 0 → s.mutex.owner = none → (∀ t, (s.threads t).Outside) → Inv s
  | taken (holder : T) : Holding s.mutex holder (s.threads holder) →
      (∀ t, t ≠ holder → (s.threads t).Outside) → Inv s

variable {s : System T}

omit [DecidableEq T] in
theorem not_holds_of_outside (h : (s.threads t).Outside) : ¬ s.Holds t := by
  rw [Holds, h.1]
  rcases h.2 with hnext | ⟨call, hnext | hnext⟩ <;> simp [hnext]

omit [DecidableEq T] in
theorem holds_of_holding (h : Holding s.mutex t (s.threads t)) : s.Holds t := by
  have howned : Owned s.mutex t (s.threads t).held → s.Holds t := fun h => by
    have hlevel := h.level
    have hheld := h.held
    exact .inl (by omega)
  obtain ⟨-, h⟩ := h
  split at h
  case h_1 hnext => exact .inr (.inl hnext)
  case h_2 hnext => exact .inr (.inr hnext)
  case h_3 => exact .inl (by omega)
  case h_10 => exact howned h
  all_goals exact howned h.1

theorem Inv.mutexOk (h : Inv s) : MutexOk s := by
  have hfree : s.mutex.lock = 0 ↔ ∀ t, ¬ s.Holds t := by
    cases h with
    | free hlock _ hout => exact iff_of_true hlock fun t => not_holds_of_outside (hout t)
    | taken holder hholding =>
      refine iff_of_false (by simp [hholding.1]) fun hnone => ?_
      exact hnone holder (holds_of_holding hholding)
  refine ⟨fun t u ht hu => ?_, hfree, fun hnormal t u hnext hu => ?_⟩
  · cases h with
    | free _ _ hout => exact absurd ht (not_holds_of_outside (hout t))
    | taken holder _ hout =>
      have heq : ∀ v, s.Holds v → v = holder := fun v hv =>
        by_contra fun hne => not_holds_of_outside (hout v hne) hv
      rw [heq t ht, heq u hu]
  · have hlock : s.mutex.lock ≠ 0 := fun hlock => hfree.mp hlock u hu
    refine ⟨s.setThread t s.mutex ((s.threads t).missed .trylock), ?_, rfl, ?_⟩
    · simp [step, access, hnext, hlock, hnormal]
    · simp [setThread, Thread.missed]

/-- One thread goes on. If it had not set `lock`, it still has not, or has set it now; if it had, it
still has, or has cleared it. -/
theorem Inv.setThread (h : Inv s) (houtside : (s.threads t).Outside → s.mutex.owner ≠ some t →
      mutex' = s.mutex ∧ thread'.Outside ∨ s.mutex.lock = 0 ∧ mutex' = { s.mutex with lock := 1 } ∧
        thread' = { s.threads t with next := .writeOwner })
    (hholding : Holding s.mutex t (s.threads t) →
      Holding mutex' t thread' ∨ mutex'.lock = 0 ∧ mutex'.owner = none ∧ thread'.Outside) :
    Inv (s.setThread t mutex' thread') := by
  have hself : (s.setThread t mutex' thread').threads t = thread' := update_self ..
  have hother : ∀ u, u ≠ t → (s.setThread t mutex' thread').threads u = s.threads u :=
    fun u hu => update_of_ne hu ..
  have hall : thread'.Outside → (∀ u, u ≠ t → (s.threads u).Outside) →
      ∀ u, ((s.setThread t mutex' thread').threads u).Outside := by
    intro hnew hout u
    by_cases hu : u = t
    · rwa [hu, hself]
    · rw [hother u hu]
      exact hout u hu
  cases h with
  | free hlock howner hout =>
    rcases houtside (hout t) (by simp [howner]) with ⟨rfl, hnew⟩ | ⟨-, rfl, rfl⟩
    · exact .free hlock howner (hall hnew fun u _ => hout u)
    · refine .taken t ?_ fun u hu => hother u hu ▸ hout u
      rw [hself]
      exact ⟨rfl, howner, (hout t).1⟩
  | taken holder hheld hout =>
    by_cases heq : t = holder
    · subst heq
      rcases hholding hheld with hnew | ⟨hlock, howner, hnew⟩
      · exact .taken t (hself.symm ▸ hnew) fun u hu => hother u hu ▸ hout u hu
      · exact .free hlock howner (hall hnew hout)
    · have howner : s.mutex.owner ≠ some t := by
        rcases hheld.owner with howner | howner <;> simp [howner, Ne.symm heq]
      rcases houtside (hout t heq) howner with ⟨rfl, hnew⟩ | ⟨hlock, -⟩
      · refine .taken holder (hother holder (Ne.symm heq) ▸ hheld) fun u hu => ?_
        by_cases hut : u = t
        · rwa [hut, hself]
        · exact hother u hut ▸ hout u hu
      · simp [hheld.1] at hlock

/-- Every step that meets the condition completes and keeps the invariant. -/
theorem step_spec (h : Inv s) (event : Event T) (hok : s.StepOk event) :
    ∃ s', s.step event = some s' ∧ Inv s' := by
  cases event with
  | call t call =>
    simp only [step]
    split_ifs with hnext
    · refine ⟨_, rfl, h.setThread (fun hout _ => .inl ⟨rfl, hout.1, .inr ⟨call, .inl rfl⟩⟩) ?_⟩
      rw [Holding, hnext]
      exact .inl
    · exact ⟨s, rfl, h⟩
  | unlock t =>
    simp only [step]
    split_ifs with hheld hrecursive
    · refine ⟨_, rfl, h.setThread (fun hout _ => absurd hout.1 hheld.2.ne') ?_⟩
      rw [Holding, hheld.1]
      exact .inl
    · refine ⟨_, rfl, h.setThread (fun hout _ => absurd hout.1 hheld.2.ne') ?_⟩
      rw [Holding, hheld.1]
      exact fun hholding => .inl ⟨hholding.1, hholding.2, hholding.2.normal (by simpa using hrecursive)⟩
    · exact ⟨s, rfl, h⟩
  | access t =>
    have hsome : (s.mutex.access t (s.threads t)).isSome := isSome_access_iff.mpr hok
    obtain ⟨⟨mutex', thread'⟩, haccess⟩ := Option.isSome_iff_exists.mp hsome
    refine ⟨s.setThread t mutex' thread', by simp [step, haccess], h.setThread ?_ ?_⟩
    · exact fun hout howner => access_outside hout howner haccess
    · exact fun hholding => access_holding hholding haccess

/-- **Mutexes.** For both types and every run of any threads, all steps meet the condition if and only if
no step is undefined and in every state at most one thread holds the mutex, it is free exactly when every
successful call of `lock` and `trylock` has been undone by an `unlock`, and a normal mutex that is held
answers `trylock` with `EBUSY`. -/
theorem mutexOk_iff_meets (recursive : Bool) (events : List (Event T)) :
    Safe step MutexOk (create T recursive) events ↔ Meets step StepOk (create T recursive) events := by
  constructor
  · rintro ⟨⟨s', hrun⟩, -⟩
    refine meets_of_run (fun (s : System T) event s' hstep => ?_) hrun
    cases event with
    | call | unlock => trivial
    | access t =>
      obtain ⟨result, haccess, -⟩ := Option.map_eq_some_iff.mp hstep
      exact isSome_access_iff.mp (Option.isSome_of_eq_some haccess)
  · exact safe_of_meets (fun _ h => h.mutexOk) (fun _ event h hok => step_spec h event hok)
      (.free rfl rfl fun _ => ⟨rfl, .inl rfl⟩)

/-- A call of `lock` by the only thread, for a recursive mutex. -/
def lockEvents : List (Event Unit) := [.call () .lock, .access (), .access (), .access (), .access ()]

/-- The only thread has locked a recursive mutex. -/
def nested (level : ℤ) (held : ℕ) : System Unit :=
  ⟨⟨1, some (), level, true⟩, Function.const Unit ⟨.none, held, false⟩⟩

/-- Locking it once more increments `level`. -/
theorem run_nested (level : ℤ) (held : ℕ) : run step (nested level held) lockEvents =
    if level + 1 < 2 ^ 31 then some (nested (level + 1) (held + 1)) else none := by
  split_ifs with hlevel
  all_goals
    simp [lockEvents, nested, run, step, access, setThread, Thread.acquired, -Int.reducePow, hlevel,
      update_eq_const_of_subsingleton]

/-- The thread locks the mutex as often as `level` can count. -/
theorem run_replicate_lockEvents (n : ℕ) (h : n < 2 ^ 31) : run step (create Unit true)
    (List.replicate (n + 1) lockEvents).flatten = some (nested n (n + 1)) := by
  induction n with
  | zero =>
    simp [lockEvents, nested, run, step, access, setThread, Thread.acquired, create, init,
      update_eq_const_of_subsingleton]
  | succ n ih =>
    rw [replicate_succ', flatten_append, flatten_singleton, run_append_eq_some]
    exact ⟨_, ih (by omega), by rw [run_nested, if_pos (by omega), Nat.cast_succ]⟩

/-- Nothing limits the nesting: the lock after `2 ^ 31` of them makes `level` overflow. -/
theorem nested_locks_overflow : ¬ Safe step MutexOk (create Unit true)
    (List.replicate (2 ^ 31 - 1 + 1 + 1) lockEvents).flatten := by
  rintro ⟨⟨s', hrun⟩, -⟩
  rw [replicate_succ', flatten_append, flatten_singleton, run_append_eq_some] at hrun
  obtain ⟨t, ht, hrun⟩ := hrun
  rw [run_replicate_lockEvents _ (by norm_num), Option.some.injEq] at ht
  rw [← ht, run_nested, if_neg (by norm_num)] at hrun
  cases hrun

end System

end PthreadMutex

end LibC
