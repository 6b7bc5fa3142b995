import PranaOS.AK.Assertions
import PranaOS.ToMathlib.Run

/-!
# `Kernel/Scheduler.cpp`

The ready queues, and what the scheduler does with them on the processor that schedules (the others
are switched off by `SCHEDULE_ON_ALL_PROCESSORS`). Every function runs under `g_scheduler_lock`, so a
call is one step, and the lock is free between steps.

A thread that is runnable should wait in a ready queue. `pick_next` takes the beneficiary of a
pending donation out of its queue before it knows whether it will switch to it, and `context_switch`
returns early if it is asked to switch to the current thread, which the scheduler may just have
pulled from its queue.
-/

namespace Kernel

open AK Transition

/-- `Thread::State`. -/
inductive ThreadState where
  | Invalid
  | Runnable
  | Running
  | Dying
  | Dead
  | Stopped
  | Blocked
deriving DecidableEq, Repr

/-! ## The ready queues -/

/-- `g_ready_queues_mask` and `g_ready_queues`, with `m_runnable_priority` of each thread. -/
structure ReadyQueues (T : Type) where
  /-- `g_ready_queues_mask`. -/
  mask : BitVec 32
  /-- `g_ready_queues`. -/
  queues : ℕ → List T
  /-- `m_runnable_priority`; `none` is `-1`. -/
  runnablePriority : T → Option ℕ

namespace ReadyQueues

variable {T : Type} [DecidableEq T]

/-- The empty queues. -/
def create : ReadyQueues T where
  mask := 0
  queues := fun _ => []
  runnablePriority := fun _ => none

variable (self : ReadyQueues T)

/-- `m_ready_queue_node.is_in_list()`. -/
def isInList (t : T) : Bool :=
  (List.range 32).any fun priority => t ∈ self.queues priority

/-- The thread leaves its queue. -/
def remove (t : T) (priority : ℕ) : ReadyQueues T where
  mask :=
    if (self.queues priority).erase t = [] then self.mask &&& ~~~(1#32 <<< priority) else self.mask
  queues := Function.update self.queues priority ((self.queues priority).erase t)
  runnablePriority := Function.update self.runnablePriority t none

/-- `dequeue_runnable_thread`, for a thread other than the idle thread. With `check_affinity`, the
thread has to be `allowed` on the processor. -/
def dequeue (t : T) (allowed : Bool) : Option (Bool × ReadyQueues T) :=
  match self.runnablePriority t with
  | none => do
    verify (self.isInList t = false)
    some (false, self)
  | some priority =>
    if !allowed then some (false, self)
    else do
      verify (self.mask.getLsbD priority = true)
      some (true, self.remove t priority)

/-- `queue_runnable_thread`, for a thread other than the idle thread. -/
def queue (t : T) (priority : ℕ) : Option (ReadyQueues T) := do
  verify (self.runnablePriority t = none)
  verify (self.isInList t = false)
  some
    { mask := if self.queues priority = [] then self.mask ||| (1#32 <<< priority) else self.mask
      queues := Function.update self.queues priority (self.queues priority ++ [t])
      runnablePriority := Function.update self.runnablePriority t (some priority) }

/-- The loop of `pull_next_runnable_thread` over the threads of one queue. -/
def pullFrom (self : ReadyQueues T) (eligible : T → Bool) (priority : ℕ) : List T → Option (Option T)
  | [] => some none
  | t :: rest => do
    verify (self.runnablePriority t = some priority)
    if eligible t then some (some t) else self.pullFrom eligible priority rest

/-- The loop of `pull_next_runnable_thread` over the queues whose bit is set, the lowest first. -/
def pullLoop (self : ReadyQueues T) (eligible : T → Bool) : List ℕ → Option (Option (T × ℕ))
  | [] => some none
  | priority :: rest =>
    if self.mask.getLsbD priority then do
      match ← self.pullFrom eligible priority (self.queues priority) with
      | some t => some (some (t, priority))
      | none => self.pullLoop eligible rest
    else self.pullLoop eligible rest

/-- `pull_next_runnable_thread`; `none` if it returns the idle thread. -/
def pull (eligible : T → Bool) : Option (Option T × ReadyQueues T) := do
  match ← self.pullLoop eligible (List.range 32) with
  | none => some (none, self)
  | some (t, priority) => some (some t, self.remove t priority)

/-- The queues, the mask and the priorities of the threads fit together. -/
structure Inv (ready : ReadyQueues T) : Prop where
  mem_iff : ∀ t priority, t ∈ ready.queues priority ↔ ready.runnablePriority t = some priority
  nodup : ∀ priority, (ready.queues priority).Nodup
  lt : ∀ t priority, ready.runnablePriority t = some priority → priority < 32
  mask : ∀ priority, priority < 32 →
    (ready.mask.getLsbD priority = true ↔ ready.queues priority ≠ [])

variable {self : ReadyQueues T} {t : T} {priority : ℕ}

theorem getLsbD_one_shiftLeft {q : ℕ} (h : q ≠ priority) :
    (1#32 <<< priority).getLsbD q = false := by
  by_cases hlt : q < priority
  · simp [hlt]
  · have : q - priority ≠ 0 := by omega
    simp [this]

/-- One bit of the mask is cleared. -/
theorem getLsbD_clear {mask : BitVec 32} {q : ℕ} (hq : q < 32) :
    (mask &&& ~~~(1#32 <<< priority)).getLsbD q = (mask.getLsbD q && !decide (q = priority)) := by
  by_cases h : q = priority
  · subst h
    simp [hq]
  · rw [BitVec.getLsbD_and, BitVec.getLsbD_not, getLsbD_one_shiftLeft h]
    simp [hq, h]

/-- One bit of the mask is set. -/
theorem getLsbD_set {mask : BitVec 32} {q : ℕ} (hq : q < 32) :
    (mask ||| (1#32 <<< priority)).getLsbD q = (mask.getLsbD q || decide (q = priority)) := by
  by_cases h : q = priority
  · subst h
    simp [hq]
  · rw [BitVec.getLsbD_or, getLsbD_one_shiftLeft h]
    simp [h]

/-- A thread without a priority is in no list. -/
theorem Inv.isInList_eq_false (hI : Inv self) (h : self.runnablePriority t = none) :
    self.isInList t = false := by
  simp [isInList, hI.mem_iff, h]

/-- One thread enters or leaves one of the queues. -/
theorem Inv.update (hI : Inv self) {mask : BitVec 32} {queue : List T} {entry : Option ℕ}
    (hlt : priority < 32) (hbefore : ∀ q, self.runnablePriority t = some q → q = priority)
    (hafter : ∀ q, entry = some q → q = priority) (hnodup : queue.Nodup)
    (hmem : ∀ u, u ∈ queue ↔ Function.update self.runnablePriority t entry u = some priority)
    (hmask : ∀ q < 32, mask.getLsbD q =
      if q = priority then decide (queue ≠ []) else self.mask.getLsbD q) :
    Inv ⟨mask, Function.update self.queues priority queue,
      Function.update self.runnablePriority t entry⟩ where
  mem_iff u q := by
    by_cases hq : q = priority
    · subst hq
      simpa using hmem u
    · simp only [Function.update_of_ne hq, hI.mem_iff, Function.update_apply]
      split
      next hu =>
        subst hu
        exact ⟨fun h => absurd (hbefore q h) hq, fun h => absurd (hafter q h) hq⟩
      next => rfl
  nodup q := by
    by_cases hq : q = priority
    · subst hq
      simpa using hnodup
    · simpa [hq] using hI.nodup q
  lt u q hu := by
    simp only [Function.update_apply] at hu
    split at hu
    · exact hafter q hu ▸ hlt
    · exact hI.lt u q hu
  mask q hq := by
    rw [hmask q hq]
    by_cases hqp : q = priority
    · subst hqp
      simp
    · simpa [hqp] using hI.mask q hq

omit [DecidableEq T] in
/-- The bit of a queue with a thread is set. -/
theorem Inv.getLsbD_mask (hI : Inv self) (h : self.runnablePriority t = some priority) :
    self.mask.getLsbD priority = true :=
  (hI.mask priority (hI.lt t priority h)).mpr (List.ne_nil_of_mem ((hI.mem_iff t priority).mpr h))

theorem inv_remove (hI : Inv self) (h : self.runnablePriority t = some priority) :
    Inv (self.remove t priority) := by
  refine hI.update (hI.lt t priority h) (by simp [h]) (by simp) ((hI.nodup priority).erase t) ?_ ?_
  · intro u
    rw [(hI.nodup priority).mem_erase_iff, hI.mem_iff, Function.update_apply]
    split
    next hu => simp [hu]
    next hu => simp [hu]
  · intro q hq
    split
    next hempty => simp [getLsbD_clear hq, hempty, Bool.and_comm]
    next hne =>
      split
      next hqp => simpa [hqp, hne] using hI.getLsbD_mask h
      next => rfl

/-- `dequeue_runnable_thread` completes; the thread is in no queue afterwards, unless it was not
allowed to leave. -/
theorem dequeue_spec (hI : Inv self) (t : T) (allowed : Bool) :
    ∃ self', self.dequeue t allowed =
        some (allowed && (self.runnablePriority t).isSome, self') ∧ Inv self' ∧
      self'.runnablePriority = Function.update self.runnablePriority t
        (if allowed then none else self.runnablePriority t) := by
  unfold dequeue
  cases h : self.runnablePriority t with
  | none =>
    exact ⟨self, by simp [hI.isInList_eq_false h], hI, by simp [← h]⟩
  | some priority =>
    cases allowed with
    | false => exact ⟨self, by simp, hI, by simp [← h]⟩
    | true => exact ⟨self.remove t priority, by simp [hI.getLsbD_mask h], inv_remove hI h, rfl⟩

/-- `queue_runnable_thread` completes for a thread that is in no queue. -/
theorem queue_spec (hI : Inv self) (h : self.runnablePriority t = none) (hlt : priority < 32) :
    ∃ self', self.queue t priority = some self' ∧ Inv self' ∧
      self'.runnablePriority = Function.update self.runnablePriority t (some priority) := by
  refine ⟨_, by simp only [queue, h, hI.isInList_eq_false h, verify_true, Option.bind_eq_bind,
    Option.bind_some]; rfl, ?_, rfl⟩
  refine hI.update hlt (by simp [h]) (by simp) ?_ ?_ ?_
  · rw [List.nodup_append]
    refine ⟨hI.nodup priority, List.nodup_singleton _, ?_⟩
    rintro u hu v hv rfl
    obtain rfl : u = t := by simpa using hv
    simp [hI.mem_iff, h] at hu
  · intro u
    rw [List.mem_append, List.mem_singleton, hI.mem_iff, Function.update_apply]
    split
    next hu => simp [hu]
    next hu => simp [hu]
  · intro q hq
    split
    next hempty => simp [getLsbD_set hq, hempty, Bool.or_comm]
    next hne =>
      split
      next hqp => simpa [hqp] using (hI.mask priority hlt).mpr hne
      next => rfl

omit [DecidableEq T] in
/-- The inner loop finds the first eligible thread of the queue. -/
theorem pullFrom_eq (eligible : T → Bool) {threads : List T}
    (h : ∀ t ∈ threads, self.runnablePriority t = some priority) :
    self.pullFrom eligible priority threads = some (threads.find? eligible) := by
  induction threads with
  | nil => rfl
  | cons t rest ih =>
    have hrest := ih fun u hu => h u (List.mem_cons_of_mem t hu)
    cases helig : eligible t <;> simp [pullFrom, h t List.mem_cons_self, helig, hrest]

omit [DecidableEq T] in
/-- The outer loop goes to the first queue that has an eligible thread. -/
theorem pullLoop_eq (hI : Inv self) (eligible : T → Bool) {priorities : List ℕ}
    (hlt : ∀ q ∈ priorities, q < 32) : self.pullLoop eligible priorities =
      some (priorities.findSome? fun q => ((self.queues q).find? eligible).map (·, q)) := by
  induction priorities with
  | nil => rfl
  | cons q rest ih =>
    have hrest := ih fun q hq => hlt q (List.mem_cons_of_mem _ hq)
    rw [pullLoop, pullFrom_eq eligible fun t ht => (hI.mem_iff t q).mp ht, List.findSome?_cons]
    split
    next => cases hfind : (self.queues q).find? eligible <;> simp [hrest]
    next hmask =>
      -- the bit of an empty queue is not set
      have hempty : self.queues q = [] := by
        simpa [hmask] using hI.mask q (hlt q List.mem_cons_self)
      simp [hempty, hrest]

/-- `pull_next_runnable_thread` completes. A thread that it pulls was in a queue and eligible, and is
in no queue afterwards. -/
theorem pull_spec (hI : Inv self) (eligible : T → Bool) :
    (self.pull eligible = some (none, self)) ∨
      ∃ t priority self', self.pull eligible = some (some t, self') ∧ Inv self' ∧
        self.runnablePriority t = some priority ∧ eligible t = true ∧
          self'.runnablePriority = Function.update self.runnablePriority t none := by
  have hloop := pullLoop_eq hI eligible fun q => List.mem_range.mp
  cases hfound : (List.range 32).findSome? fun q => ((self.queues q).find? eligible).map (·, q) with
  | none => exact Or.inl (by simp [pull, hloop, hfound])
  | some found =>
    obtain ⟨t, priority⟩ := found
    obtain ⟨q, -, hq⟩ := List.exists_of_findSome?_eq_some hfound
    obtain ⟨u, hfind, ⟨⟩⟩ := Option.map_eq_some_iff.mp hq
    have hpriority := (hI.mem_iff t priority).mp (List.mem_of_find?_eq_some hfind)
    exact Or.inr ⟨t, priority, self.remove t priority, by simp [pull, hloop, hfound],
      inv_remove hI hpriority, hpriority, List.find?_some hfind, rfl⟩

end ReadyQueues

/-! ## The scheduler -/

/-- The part of a `Thread` that the scheduler looks at. -/
structure SchedulerThread where
  /-- `m_state`. -/
  state : ThreadState
  /-- `m_priority`, between `THREAD_PRIORITY_MIN` and `THREAD_PRIORITY_MAX`. -/
  priority : {priority : ℕ // 1 ≤ priority ∧ priority ≤ 99}
  /-- `affinity()` contains the processor. -/
  affinity : Bool
  /-- `m_is_active`. -/
  active : Bool
  /-- `m_ticks_left`. -/
  ticksLeft : ℕ
  /-- `m_should_die`. -/
  shouldDie : Bool

/-- `thread_priority_to_priority_index`. -/
def threadPriorityToPriorityIndex (threadPriority : ℕ) : ℕ :=
  (99 - (threadPriority - 1)) / 99 * 31

/-- The scheduler of a processor. -/
structure Scheduler (T : Type) where
  /-- `Processor::idle_thread()`. -/
  idleThread : T
  /-- `Thread::current()`. -/
  current : T
  /-- `m_pending_beneficiary`. -/
  pendingBeneficiary : Option T
  /-- The threads. -/
  threads : T → SchedulerThread
  /-- The ready queues. -/
  ready : ReadyQueues T

namespace Scheduler

variable {T : Type} [DecidableEq T]

variable (s : Scheduler T)

/-- `time_slice_for`. -/
def timeSliceFor (t : T) : ℕ := if t = s.idleThread then 1 else 2

/-- The thread is changed. -/
def setThread (t : T) (thread : SchedulerThread) : Scheduler T :=
  { s with threads := Function.update s.threads t thread }

/-- `Scheduler::dequeue_runnable_thread`. -/
def dequeueRunnableThread (t : T) (checkAffinity : Bool) :
    Option (Bool × Scheduler T) :=
  if t = s.idleThread then some (true, s)
  else do
    let (result, ready) ← s.ready.dequeue t (!checkAffinity || (s.threads t).affinity)
    some (result, { s with ready := ready })

/-- `Scheduler::queue_runnable_thread`. -/
def queueRunnableThread (t : T) : Option (Scheduler T) :=
  if t = s.idleThread then some s
  else do
    let ready ← s.ready.queue t (threadPriorityToPriorityIndex (s.threads t).priority)
    some { s with ready := ready }

/-- `Thread::set_state`. The threads of a process that is stopped or continued are stopped or
continued by calls of their own. -/
def setState (t : T) (newState : ThreadState) : Option (Scheduler T) := do
  let previousState := (s.threads t).state
  if newState = previousState then some s
  else
    let s := s.setThread t { s.threads t with state := newState }
    let s ← (if previousState = .Runnable then (·.2) <$> s.dequeueRunnableThread t false
      else some s)
    if newState = .Runnable then s.queueRunnableThread t
    else if newState = .Dying then do
      verify (previousState ≠ .Blocked)
      some s
    else some s

/-- `Scheduler::context_switch`, with `enter_current`. -/
def contextSwitch (t : T) : Option (Scheduler T) :=
  let fromThread := s.current
  if fromThread = t then some s
  else do
    let s ← (if (s.threads fromThread).state = .Running then s.setState fromThread .Runnable
      else some s)
    let s ← s.setState t .Running
    let s := { s with current := t }
    some (s.setThread fromThread { s.threads fromThread with active := false })

/-- `Scheduler::donate_to_and_switch`. Since the caller has the scheduler lock, `yield` only asks for
the scheduler to be invoked later. -/
def donateToAndSwitch (beneficiary : T) : Option (Scheduler T) :=
  let ticksLeft := (s.threads s.current).ticksLeft
  if (s.threads beneficiary).state ≠ .Runnable ∨ ticksLeft ≤ 1 then
    some { s with pendingBeneficiary := none }
  else
    let ticksToDonate := min (ticksLeft - 1) (s.timeSliceFor beneficiary)
    let s := s.setThread beneficiary { s.threads beneficiary with ticksLeft := ticksToDonate }
    s.contextSwitch beneficiary

/-- The end of `Scheduler::pick_next`, without a donation. -/
def pickFromQueues : Option (Scheduler T) := do
  let s := { s with pendingBeneficiary := none }
  let (pulled, ready) ← s.ready.pull fun t => !(s.threads t).active && (s.threads t).affinity
  let s := { s with ready := ready }
  match pulled with
  | some t =>
    let s := s.setThread t { s.threads t with active := true, ticksLeft := s.timeSliceFor t }
    s.contextSwitch t
  | none =>
    let t := s.idleThread
    let s := s.setThread t { s.threads t with ticksLeft := s.timeSliceFor t }
    s.contextSwitch t

/-- `Scheduler::pick_next`. -/
def pickNext : Option (Scheduler T) := do
  let s ← (if (s.threads s.current).shouldDie ∧ (s.threads s.current).state = .Running then
      s.setState s.current .Dying
    else some s)
  match s.pendingBeneficiary with
  | some beneficiary =>
    let (dequeued, s) ← s.dequeueRunnableThread beneficiary true
    if dequeued then donateToAndSwitch { s with pendingBeneficiary := none } beneficiary
    else s.pickFromQueues
  | none => s.pickFromQueues

/-- `Scheduler::yield`. -/
def yield (inIrqOrCritical : Bool) : Option (Scheduler T) :=
  let s := { s with pendingBeneficiary := none }
  if inIrqOrCritical then some s else s.pickNext

/-- `Scheduler::donate_to`. -/
def donateTo (beneficiary : T) (inCritical : Bool) : Option (Scheduler T) :=
  if beneficiary = s.current then s.yield inCritical
  else if inCritical then some { s with pendingBeneficiary := some beneficiary }
  else s.donateToAndSwitch beneficiary

/-- What can happen next. -/
inductive Event (T : Type) where
  /-- The kernel calls `set_state`. -/
  | setState (t : T) (newState : ThreadState)
  /-- Something else about a thread changes: time passes, or it is told to die, or it gets another
  priority or affinity. -/
  | change (t : T) (priority : {priority : ℕ // 1 ≤ priority ∧ priority ≤ 99}) (affinity : Bool)
      (ticksLeft : ℕ) (shouldDie : Bool)
  /-- The thread that `m_pending_beneficiary` points to disappears. -/
  | forgetBeneficiary
  | pickNext
  | yield (inIrqOrCritical : Bool)
  | donateTo (beneficiary : T) (inCritical : Bool)

/-- One step. -/
def step : Event T → Option (Scheduler T)
  | .setState t newState => s.setState t newState
  | .change t priority affinity ticksLeft shouldDie =>
    some (s.setThread t { s.threads t with
      priority := priority, affinity := affinity, ticksLeft := ticksLeft, shouldDie := shouldDie })
  | .forgetBeneficiary => some { s with pendingBeneficiary := none }
  | .pickNext => s.pickNext
  | .yield inIrqOrCritical => s.yield inIrqOrCritical
  | .donateTo beneficiary inCritical => s.donateTo beneficiary inCritical

/-- The idle thread runs, and no other thread has been started. -/
def create (idleThread : T) : Scheduler T where
  idleThread := idleThread
  current := idleThread
  pendingBeneficiary := none
  threads := fun t =>
    { state := if t = idleThread then .Running else .Invalid
      priority := ⟨1, by decide⟩
      affinity := true
      active := t = idleThread
      ticksLeft := 0
      shouldDie := false }
  ready := .create

/-! ## The property -/

/-- Every runnable thread is once in the queue that its `m_runnable_priority` names and in no other
queue, no other thread is in a queue, and the mask tells which queues are not empty. -/
structure NoThreadLost (s : Scheduler T) : Prop where
  runnable : ∀ t, t ≠ s.idleThread → (s.threads t).state = .Runnable →
    ∃ priority, s.ready.runnablePriority t = some priority ∧
      (s.ready.queues priority).count t = 1 ∧ ∀ q, q ≠ priority → t ∉ s.ready.queues q
  other : ∀ t, t ≠ s.idleThread → (s.threads t).state ≠ .Runnable → ∀ q, t ∉ s.ready.queues q
  mask : ∀ q, q < 32 → (s.ready.mask.getLsbD q = true ↔ s.ready.queues q ≠ [])

/-- `pick_next` takes up the pending donation. -/
def Donates (beneficiary : T) : Prop :=
  s.pendingBeneficiary = some beneficiary ∧ beneficiary ≠ s.idleThread ∧
    (s.threads beneficiary).state = .Runnable ∧ (s.threads beneficiary).affinity = true

/-- The condition on `pick_next`: it takes a donation up only if the current thread has ticks to
donate and is not the beneficiary itself, and a current thread that is runnable again is marked as
active, so that it is not pulled from its queue. -/
def PickOk : Prop :=
  (∀ beneficiary, Donates s beneficiary →
    1 < (s.threads s.current).ticksLeft ∧ beneficiary ≠ s.current) ∧
  ((∀ beneficiary, ¬ Donates s beneficiary) → s.current ≠ s.idleThread →
    (s.threads s.current).state = .Runnable → (s.threads s.current).active = true)

/-- The condition on a step. No thread may die while it is blocked. -/
def StepOk : Event T → Prop
  | .setState t newState => newState = .Dying → (s.threads t).state ≠ .Blocked
  | .pickNext => PickOk s
  | .yield inIrqOrCritical =>
    inIrqOrCritical = false → PickOk { s with pendingBeneficiary := none }
  | .donateTo beneficiary inCritical =>
    beneficiary = s.current → inCritical = false → PickOk { s with pendingBeneficiary := none }
  | _ => True

instance decidableDonates (beneficiary : T) :
    Decidable (Donates s beneficiary) :=
  inferInstanceAs (Decidable (_ ∧ _ ∧ _ ∧ _))

instance decidablePickOk [Fintype T] (s : Scheduler T) : Decidable (PickOk s) :=
  inferInstanceAs (Decidable (_ ∧ _))

instance decidableStepOk [Fintype T] (s : Scheduler T) : (event : Event T) → Decidable (StepOk s event)
  | .setState t newState =>
    inferInstanceAs (Decidable (newState = .Dying → (s.threads t).state ≠ .Blocked))
  | .pickNext => inferInstanceAs (Decidable (PickOk s))
  | .yield inIrqOrCritical => inferInstanceAs (Decidable (inIrqOrCritical = false → PickOk _))
  | .donateTo beneficiary inCritical =>
    inferInstanceAs (Decidable (beneficiary = s.current → inCritical = false → PickOk _))
  | .change .. | .forgetBeneficiary => isTrue trivial

/-! ## The invariant -/

/-- The queues fit the states of the threads, except that a thread that is `held` has been taken out
of its queue whatever its state. -/
structure InvBut (s : Scheduler T) (held : Option T) : Prop where
  ready : s.ready.Inv
  linked : ∀ t, (s.ready.runnablePriority t).isSome = true ↔
    t ≠ s.idleThread ∧ held ≠ some t ∧ (s.threads t).state = .Runnable

/-- The invariant while the scheduler lock is free. -/
abbrev Inv : Prop := InvBut s none

variable {s : Scheduler T} {t : T} {held : Option T}

omit [DecidableEq T] in
theorem InvBut.eq_none (hI : InvBut s held)
    (h : ¬(t ≠ s.idleThread ∧ held ≠ some t ∧ (s.threads t).state = .Runnable)) :
    s.ready.runnablePriority t = none := by
  simpa using mt (hI.linked t).mp h

/-- The property is what the invariant says about the queues. -/
theorem noThreadLost_of_inv (hI : Inv s) : NoThreadLost s where
  runnable t ht hstate := by
    have hsome := (hI.linked t).mpr ⟨ht, by simp, hstate⟩
    obtain ⟨priority, hpriority⟩ := Option.isSome_iff_exists.mp hsome
    have hmem := (hI.ready.mem_iff t priority).mpr hpriority
    refine ⟨priority, hpriority, List.count_eq_one_of_mem (hI.ready.nodup priority) hmem, ?_⟩
    intro q hq hmem'
    have hq' := (hI.ready.mem_iff t q).mp hmem'
    rw [hpriority] at hq'
    exact hq (Option.some.inj hq').symm
  other t ht hstate q hmem := by
    have hq := (hI.ready.mem_iff t q).mp hmem
    rw [hI.eq_none fun h => hstate h.2.2] at hq
    cases hq
  mask := hI.ready.mask

/-- A runnable thread that is in no queue is lost. -/
theorem not_noThreadLost (ht : t ≠ s.idleThread) (hstate : (s.threads t).state = .Runnable)
    (hnone : s.ready.runnablePriority t = none) : ¬ NoThreadLost s := by
  intro h
  obtain ⟨priority, hpriority, -⟩ := h.runnable t ht hstate
  simp [hnone] at hpriority

theorem threadPriorityToPriorityIndex_lt (priority : ℕ) :
    threadPriorityToPriorityIndex priority < 32 := by
  unfold threadPriorityToPriorityIndex
  omega

/-- A change of a thread that leaves its state alone keeps the invariant. -/
theorem inv_setThread (hI : InvBut s held) {thread : SchedulerThread}
    (h : thread.state = (s.threads t).state) : InvBut (s.setThread t thread) held where
  ready := hI.ready
  linked u := by
    have hstate : ((s.setThread t thread).threads u).state = (s.threads u).state := by
      by_cases hut : u = t
      · subst hut
        simpa [setThread] using h
      · simp [setThread, hut]
    rw [hstate]
    exact hI.linked u

/-! ## The calls -/

/-- `dequeue_runnable_thread` completes; what it answers, and what it does to the queues. -/
theorem dequeueRunnableThread_spec (hready : s.ready.Inv)
    (hidle : s.ready.runnablePriority s.idleThread = none) (t : T) (checkAffinity : Bool) :
    ∃ result ready, s.dequeueRunnableThread t checkAffinity = some (result, { s with ready := ready })
      ∧ ready.Inv ∧
      (result = true ↔ t = s.idleThread ∨ (s.ready.runnablePriority t).isSome = true ∧
        (checkAffinity = true → (s.threads t).affinity = true)) ∧
      ready.runnablePriority = Function.update s.ready.runnablePriority t
        (if result then none else s.ready.runnablePriority t) := by
  unfold dequeueRunnableThread
  by_cases ht : t = s.idleThread
  · subst ht
    exact ⟨true, s.ready, by simp, hready, by simp, by simp [← hidle]⟩
  · obtain ⟨ready, hdequeue, hInv, hself⟩ :=
      ReadyQueues.dequeue_spec hready t (!checkAffinity || (s.threads t).affinity)
    refine ⟨_, ready, by simp only [if_neg ht, hdequeue]; rfl, hInv, ?_, ?_⟩
    · cases checkAffinity <;> simp [ht, and_comm]
    · rw [hself]
      cases hpriority : s.ready.runnablePriority t <;> simp

/-- `queue_runnable_thread` completes for a thread that is in no queue. -/
theorem queueRunnableThread_spec (hready : s.ready.Inv) (h : s.ready.runnablePriority t = none) :
    ∃ ready entry, s.queueRunnableThread t = some { s with ready := ready } ∧ ready.Inv ∧
      ready.runnablePriority = Function.update s.ready.runnablePriority t entry ∧
      (entry.isSome = true ↔ t ≠ s.idleThread) := by
  unfold queueRunnableThread
  by_cases ht : t = s.idleThread
  · exact ⟨s.ready, none, by simp [ht], hready, by simp [← h], by simp [ht]⟩
  · obtain ⟨ready, hqueue, hInv, hself⟩ := ReadyQueues.queue_spec hready h
      (threadPriorityToPriorityIndex_lt (s.threads t).priority)
    exact ⟨ready, _, by simp [ht, hqueue], hInv, hself, by simp [ht]⟩

/-- A thread whose state has changed is linked again if it is in a queue exactly when it is
runnable. -/
theorem inv_setState (hI : InvBut s held) {newState : ThreadState} {ready : ReadyQueues T}
    {entry : Option ℕ} (hready : ready.Inv)
    (hentries : ready.runnablePriority = Function.update s.ready.runnablePriority t entry)
    (hentry : entry.isSome = true ↔ t ≠ s.idleThread ∧ newState = .Runnable) :
    InvBut { s.setThread t { s.threads t with state := newState } with ready := ready }
      (if held = some t then none else held) where
  ready := hready
  linked u := by
    by_cases hut : u = t
    · subst hut
      have hnotHeld : (if held = some u then none else held) ≠ some u := by
        split
        · simp
        · assumption
      simp [setThread, hentries, hentry, hnotHeld]
    · have hheld : (if held = some t then none else held) ≠ some u ↔ held ≠ some u := by
        split
        next h => simp [h, Ne.symm hut]
        next => rfl
      rw [hheld]
      simpa [setThread, hentries, hut] using hI.linked u

/-- What `set_state` does to the ready queues: the thread is in a queue afterwards if and only if it
is runnable. -/
theorem setState_spec (hI : InvBut s held) (t : T) (newState : ThreadState)
    (hheld : held = some t → (s.threads t).state ≠ newState)
    (hdying : newState = .Dying → (s.threads t).state ≠ .Blocked) :
    ∃ ready, s.setState t newState =
        some { s.setThread t { s.threads t with state := newState } with ready := ready } ∧
      InvBut { s.setThread t { s.threads t with state := newState } with ready := ready }
        (if held = some t then none else held) := by
  by_cases hsame : newState = (s.threads t).state
  · subst hsame
    have hs : s.setThread t { s.threads t with state := (s.threads t).state } = s := by
      simp [setThread]
    refine ⟨s.ready, by simp [setState, hs], ?_⟩
    rw [if_neg fun h => hheld h rfl, hs]
    exact hI
  · set s₁ := s.setThread t { s.threads t with state := newState } with hs₁
    -- Whatever the previous state was, the thread is in no queue after the first half.
    have hleave : ∃ ready, (if (s.threads t).state = .Runnable then
          (·.2) <$> s₁.dequeueRunnableThread t false else some s₁) =
            some { s₁ with ready := ready } ∧ ready.Inv ∧
        ready.runnablePriority = Function.update s.ready.runnablePriority t none := by
      by_cases hprevious : (s.threads t).state = .Runnable
      · obtain ⟨result, ready, hdequeue, hInv, hresult, hentries⟩ :=
          dequeueRunnableThread_spec (s := s₁) hI.ready (hI.eq_none fun h => h.1 rfl) t false
        refine ⟨ready, by simp [hprevious, hdequeue], hInv, ?_⟩
        cases result with
        | true => exact hentries
        | false =>
          have hnot : ¬ (s.ready.runnablePriority t).isSome = true := fun h => by
            simpa using hresult.mpr (Or.inr ⟨h, by simp⟩)
          have hnone : s.ready.runnablePriority t = none := by simpa using hnot
          exact hnone ▸ hentries
      · refine ⟨s.ready, by simp [hprevious, hs₁, setThread], hI.ready, ?_⟩
        rw [← hI.eq_none fun h => hprevious h.2.2, Function.update_eq_self]
    obtain ⟨ready₁, hfirst, hready₁, hentries₁⟩ := hleave
    by_cases hrunnable : newState = .Runnable
    · obtain ⟨ready₂, entry, hqueue, hready₂, hentries₂, hentry⟩ :=
        queueRunnableThread_spec (s := { s₁ with ready := ready₁ }) (t := t) hready₁
          (by simp [hentries₁])
      simp only [hentries₁, Function.update_idem] at hentries₂
      refine ⟨ready₂, ?_, inv_setState hI hready₂ hentries₂ (hentry.trans ?_)⟩
      · unfold setState
        simp only [if_neg hsame]
        rw [← hs₁, hfirst, Option.bind_eq_bind, Option.bind_some, if_pos hrunnable]
        exact hqueue
      · simp [hrunnable, hs₁, setThread]
    · refine ⟨ready₁, ?_, inv_setState hI hready₁ hentries₁ (by simp [hrunnable])⟩
      unfold setState
      simp only [if_neg hsame]
      rw [← hs₁, hfirst, Option.bind_eq_bind, Option.bind_some, if_neg hrunnable]
      split
      next h => simp [hdying h]
      next => rfl

/-- Only one thread is taken out of its queue, and is held from then on. -/
theorem inv_hold (hI : Inv s) {ready : ReadyQueues T} (hready : ready.Inv)
    (hentries : ready.runnablePriority = Function.update s.ready.runnablePriority t none) :
    InvBut { s with ready := ready } (some t) where
  ready := hready
  linked u := by
    by_cases hut : u = t
    · simp [hentries, hut]
    · simpa [hentries, hut, Ne.symm hut] using hI.linked u

omit [DecidableEq T] in
/-- The idle thread is in no queue anyway. -/
theorem inv_of_hold_idle (hI : InvBut s (some s.idleThread)) : Inv s where
  ready := hI.ready
  linked u := by
    rw [hI.linked u]
    refine and_congr_right fun hu => and_congr_left' (iff_of_true ?_ (by simp))
    exact fun h => hu (Option.some.inj h).symm

/-- `context_switch` completes. A thread that is held must not be the current one, because nothing
happens to that one. -/
theorem contextSwitch_spec (held : Option T) (hI : InvBut s held) (t : T)
    (hheld : ∀ u, held = some u → u = t ∧ t ≠ s.current ∧ (s.threads t).state = .Runnable) :
    ∃ s', s.contextSwitch t = some s' ∧ Inv s' := by
  unfold contextSwitch
  by_cases hcurrent : s.current = t
  · refine ⟨s, by simp [hcurrent], ?_⟩
    cases held with
    | none => exact hI
    | some u => exact absurd hcurrent.symm (hheld u rfl).2.1
  -- The thread that ran until now goes back to a queue; it is not the one that is held.
  have hback : ∃ s₁, (if (s.threads s.current).state = .Running then s.setState s.current .Runnable
        else some s) = some s₁ ∧ InvBut s₁ held ∧ s₁.threads t = s.threads t := by
    split
    next hrunning =>
      have hnotHeld : held ≠ some s.current := fun h => hcurrent (hheld _ h).1
      obtain ⟨ready, hset, hInv⟩ := setState_spec hI s.current .Runnable
        (fun h => absurd h hnotHeld) (by simp)
      rw [if_neg hnotHeld] at hInv
      refine ⟨_, hset, hInv, ?_⟩
      simp [setThread, Function.update_of_ne (Ne.symm hcurrent)]
    next => exact ⟨s, rfl, hI, rfl⟩
  obtain ⟨s₁, hfirst, hI₁, hthread⟩ := hback
  obtain ⟨ready, hset, hI₂⟩ := setState_spec hI₁ t .Running
    (fun h => by rw [hthread, (hheld t h).2.2]; simp) (by simp)
  have hnone : (if held = some t then none else held) = none := by
    cases held with
    | none => simp
    | some u => simp [(hheld u rfl).1]
  rw [hnone] at hI₂
  simp only [if_neg hcurrent]
  rw [hfirst, Option.bind_eq_bind, Option.bind_some, hset]
  refine ⟨_, rfl, inv_setThread ?_ rfl⟩
  exact ⟨hI₂.ready, hI₂.linked⟩

/-- `donate_to_and_switch` completes. If the beneficiary is held, the donation has to take place. -/
theorem donateToAndSwitch_spec (held : Option T) (hI : InvBut s held) (beneficiary : T)
    (hheld : ∀ u, held = some u → u = beneficiary ∧ beneficiary ≠ s.current ∧
      (s.threads beneficiary).state = .Runnable ∧ 1 < (s.threads s.current).ticksLeft) :
    ∃ s', s.donateToAndSwitch beneficiary = some s' ∧ Inv s' := by
  simp only [donateToAndSwitch]
  split
  next hrefused =>
    have hnone : held = none := by
      cases held with
      | none => rfl
      | some u =>
        obtain ⟨-, -, hstate, hticks⟩ := hheld u rfl
        rcases hrefused with h | h
        · exact absurd hstate h
        · omega
    subst hnone
    exact ⟨_, rfl, ⟨hI.ready, hI.linked⟩⟩
  next =>
    apply contextSwitch_spec held
    · apply inv_setThread hI
      rfl
    intro u hu
    obtain ⟨hub, hcurrent, hstate, -⟩ := hheld u hu
    exact ⟨hub, hcurrent, by simpa [setThread] using hstate⟩

/-- `pick_next` without a donation completes. The thread that is pulled is not the current one, since
it is not active. -/
theorem pickFromQueues_spec (hI : Inv s)
    (hcurrent : s.current ≠ s.idleThread → (s.threads s.current).state = .Runnable →
      (s.threads s.current).active = true) :
    ∃ s', s.pickFromQueues = some s' ∧ Inv s' := by
  unfold pickFromQueues
  rcases ReadyQueues.pull_spec hI.ready
      (fun t => !(s.threads t).active && (s.threads t).affinity) with
    hpull | ⟨t, priority, ready, hpull, hready, hpriority, heligible, hentries⟩
  · simp only [hpull, Option.bind_eq_bind, Option.bind_some]
    apply contextSwitch_spec none
    · apply inv_setThread
      · exact ⟨hI.ready, hI.linked⟩
      · rfl
    · simp
  · simp only [hpull, Option.bind_eq_bind, Option.bind_some]
    obtain ⟨hidle, -, hstate⟩ := (hI.linked t).mp (by simp [hpriority])
    have hne : t ≠ s.current := by
      rintro rfl
      simp [hcurrent hidle hstate] at heligible
    have hhold := inv_hold hI hready hentries
    apply contextSwitch_spec (some t)
    · apply inv_setThread
      · exact ⟨hhold.ready, hhold.linked⟩
      · rfl
    · intro u hu
      exact ⟨(Option.some.inj hu).symm, hne, by simpa [setThread] using hstate⟩

/-- The current thread dies if it should. -/
theorem dieIfNeeded_spec (hI : Inv s) (hok : PickOk s) :
    ∃ s', (if (s.threads s.current).shouldDie ∧ (s.threads s.current).state = .Running then
        s.setState s.current .Dying else some s) = some s' ∧ Inv s' ∧ PickOk s' := by
  split
  next hdie =>
    obtain ⟨ready, hset, hInv⟩ := setState_spec hI s.current .Dying (by simp) (by simp [hdie.2])
    refine ⟨_, hset, by simpa using hInv, ?_, ?_⟩
    · rintro beneficiary ⟨hpending, hidle, hstate, haffinity⟩
      by_cases hb : beneficiary = s.current
      · subst hb
        simp [setThread] at hstate
      · simp only [setThread, Function.update_of_ne hb] at hstate haffinity
        have := hok.1 beneficiary ⟨hpending, hidle, hstate, haffinity⟩
        simpa [setThread] using this
    · intro _ _ hstate
      simp [setThread] at hstate
  next => exact ⟨s, rfl, hI, hok⟩

/-- `pick_next` completes. -/
theorem pickNext_spec (hI : Inv s) (hok : PickOk s) : ∃ s', s.pickNext = some s' ∧ Inv s' := by
  obtain ⟨s₁, hfirst, hI₁, hok₁⟩ := dieIfNeeded_spec hI hok
  unfold pickNext
  rw [hfirst, Option.bind_eq_bind, Option.bind_some]
  cases hpending : s₁.pendingBeneficiary with
  | none =>
    apply pickFromQueues_spec hI₁
    apply hok₁.2
    rintro beneficiary ⟨h, -⟩
    simp [hpending] at h
  | some beneficiary =>
    obtain ⟨result, ready, hdequeue, hready, hresult, hentries⟩ :=
      dequeueRunnableThread_spec hI₁.ready (hI₁.eq_none fun h => h.1 rfl) beneficiary true
    simp only [hdequeue, Option.bind_eq_bind, Option.bind_some]
    cases result with
    | true =>
      have hhold := inv_hold hI₁ hready hentries
      rcases hresult.mp rfl with hidle | ⟨hsome, haffinity⟩
      · subst hidle
        have hInv := inv_of_hold_idle hhold
        apply donateToAndSwitch_spec none
        · exact ⟨hInv.ready, hInv.linked⟩
        · simp
      · obtain ⟨hidle, -, hstate⟩ := (hI₁.linked beneficiary).mp hsome
        obtain ⟨hticks, hne⟩ := hok₁.1 beneficiary ⟨hpending, hidle, hstate, haffinity rfl⟩
        apply donateToAndSwitch_spec (some beneficiary)
        · exact ⟨hhold.ready, hhold.linked⟩
        · intro u hu
          exact ⟨(Option.some.inj hu).symm, hne, hstate, hticks⟩
    | false =>
      -- The beneficiary is in no queue, or not allowed on the processor: the queues are as before.
      have hsame : ready.runnablePriority = s₁.ready.runnablePriority := by simpa using hentries
      have hInv : Inv { s₁ with ready := ready } :=
        ⟨hready, fun u => by simpa [hsame] using hI₁.linked u⟩
      apply pickFromQueues_spec hInv
      apply hok₁.2
      rintro u ⟨hu, hidle, hstate, haffinity⟩
      obtain rfl : beneficiary = u := Option.some.inj (hpending.symm.trans hu)
      have hsome := (hI₁.linked beneficiary).mpr ⟨hidle, by simp, hstate⟩
      simpa using hresult.mpr (Or.inr ⟨hsome, fun _ => haffinity⟩)

/-- `yield` completes. -/
theorem yield_spec (hI : Inv s) (inIrqOrCritical : Bool)
    (hok : inIrqOrCritical = false → PickOk { s with pendingBeneficiary := none }) :
    ∃ s', s.yield inIrqOrCritical = some s' ∧ Inv s' := by
  have hI' : Inv { s with pendingBeneficiary := none } := ⟨hI.ready, hI.linked⟩
  cases inIrqOrCritical with
  | true => exact ⟨_, rfl, hI'⟩
  | false => exact pickNext_spec hI' (hok rfl)

/-- Every step that meets the condition completes and keeps the invariant. -/
theorem step_spec (hI : Inv s) (event : Event T) (hok : StepOk s event) :
    ∃ s', s.step event = some s' ∧ Inv s' := by
  cases event with
  | setState t newState =>
    obtain ⟨ready, hset, hInv⟩ := setState_spec hI t newState (by simp) hok
    exact ⟨_, hset, by simpa using hInv⟩
  | change t priority affinity ticksLeft shouldDie => exact ⟨_, rfl, inv_setThread hI rfl⟩
  | forgetBeneficiary => exact ⟨_, rfl, ⟨hI.ready, hI.linked⟩⟩
  | pickNext => exact pickNext_spec hI hok
  | yield inIrqOrCritical => exact yield_spec hI inIrqOrCritical hok
  | donateTo beneficiary inCritical =>
    simp only [step, donateTo]
    split
    next hcurrent => exact yield_spec hI inCritical (hok hcurrent)
    next =>
      split
      · exact ⟨_, rfl, ⟨hI.ready, hI.linked⟩⟩
      · exact donateToAndSwitch_spec none hI beneficiary (by simp)

theorem inv_create (idleThread : T) : Inv (create idleThread) where
  ready :=
    { mem_iff := fun t priority => by simp [create, ReadyQueues.create]
      nodup := fun priority => by simp [create, ReadyQueues.create]
      lt := fun t priority h => by simp [create, ReadyQueues.create] at h
      mask := fun priority _ => by simp [create, ReadyQueues.create] }
  linked t := by
    by_cases ht : t = idleThread <;> simp [create, ReadyQueues.create, ht]

/-- In every run whose steps meet the condition, no runnable thread is lost. -/
theorem noThreadLost_of_meets (idleThread : T) (events : List (Event T))
    (h : Meets step StepOk (create idleThread) events) :
    Safe step NoThreadLost (create idleThread) events :=
  safe_of_meets (fun _ hI => noThreadLost_of_inv hI)
    (fun _ event hI hok => step_spec hI event hok) (inv_create idleThread) h

/-- Thread 1 is picked, donates its two ticks to thread 2 from within a critical section, and the
donation takes place when the section is left; then thread 2 blocks. -/
theorem noThreadLost_of_meets_donation :
    Meets step StepOk (create (0 : Fin 3))
      [.setState 1 .Runnable, .setState 2 .Runnable, .pickNext, .donateTo 2 true, .pickNext,
        .setState 2 .Blocked, .yield false] ∧
    Safe step NoThreadLost (create (0 : Fin 3))
      [.setState 1 .Runnable, .setState 2 .Runnable, .pickNext, .donateTo 2 true, .pickNext,
        .setState 2 .Blocked, .yield false] := by
  have h : Meets step StepOk (create (0 : Fin 3))
      [.setState 1 .Runnable, .setState 2 .Runnable, .pickNext, .donateTo 2 true, .pickNext,
        .setState 2 .Blocked, .yield false] := by decide
  exact ⟨h, noThreadLost_of_meets 0 _ h⟩

/-- The same run, except that a tick passes before the donation is taken up: thread 2 has left its
queue, is still runnable, and the scheduler does not switch to it. -/
theorem pending_donation_loses_beneficiary :
    ∃ s, run step (create (0 : Fin 3))
      [.setState 1 .Runnable, .setState 2 .Runnable, .pickNext, .donateTo 2 true,
        .change 1 ⟨1, by decide⟩ true 1 false, .pickNext] = some s ∧
      s.current = 1 ∧ (s.threads 2).state = .Runnable ∧ s.ready.runnablePriority 2 = none ∧
      ¬ NoThreadLost s :=
  ⟨_, rfl, rfl, rfl, rfl, not_noThreadLost (t := 2) (by decide) rfl rfl⟩

end Scheduler

end Kernel
