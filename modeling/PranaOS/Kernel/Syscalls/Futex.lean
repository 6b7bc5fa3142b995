import PranaOS.AK.HashMap
import PranaOS.ToMathlib.List
import PranaOS.ToMathlib.Run
import PranaOS.Kernel.FutexQueue
import PranaOS.Kernel.ThreadBlockers

/-!
# `Kernel/Syscalls/futex.cpp`: waiting and waking

Threads wait on futexes and wake each other. What a call does under the lock of the queue map is one
step. A waiting thread looks its queue up under that lock and gives the lock up before it registers
its blocker with the queue and blocks. When it runs again, its blocker leaves the queue, and then it
takes the lock again and removes the entry of its key from the map if its queue is empty.
-/

namespace Kernel

open AK

/-- What identifies a futex: an address of a process, or an offset in a VM object. -/
inductive FutexKey where
  | ofProcess (process address : ℕ)
  | ofVMObject (vmobject offset : ℕ)
deriving DecidableEq, Repr

/-- `FutexQueue`. -/
structure FutexQueue (n : ℕ) where
  /-- `m_user_address_or_offset`, and whose it is. -/
  key : FutexKey
  /-- `m_blockers`. -/
  blockers : List (FutexBlocker (Fin n))
deriving DecidableEq, Repr

/-- The commands that wait and wake. -/
inductive FutexCommand where
  | FUTEX_WAIT
  | FUTEX_WAIT_BITSET (val3 : BitVec 32)
  | FUTEX_WAKE
  | FUTEX_WAKE_BITSET (val3 : BitVec 32)
deriving DecidableEq, Repr

namespace Futex

/-- Where a thread is in `sys$futex`. The queue is the `FutexQueue` object that it has a reference
to. -/
inductive Waiter where
  | idle
  /-- `do_wait` looked the queue up and gave up the lock. -/
  | found (key : FutexKey) (queue : ℕ) (bitset : BitVec 32)
  /-- The blocker is in the list of the queue, and `begin_blocking` is still to come. -/
  | registered (key : FutexKey) (queue : ℕ) (didUnblock : Bool)
  /-- The thread is in the state `Blocked`. -/
  | blocked (key : FutexKey) (queue : ℕ) (didUnblock : Bool)
  /-- The thread is no longer blocked; its blocker still exists. -/
  | running (key : FutexKey) (queue : ℕ) (didUnblock : Bool) (interruption : Option Interruption)
  /-- `wait_on` returned. -/
  | leaving (key : FutexKey) (queue : ℕ) (interruption : Option Interruption)
  /-- `sys$futex` returned. -/
  | returned (result : KResultOr ℕ)
deriving DecidableEq

namespace Waiter

/-- The blocker of the thread is unblocked. `unblock_from_blocker` does nothing for a thread that is
not blocking yet. -/
def unblock : Waiter → Waiter
  | registered key queue _ => registered key queue true
  | blocked key queue _ => running key queue true none
  | running key queue _ interruption => running key queue true interruption
  | waiter => waiter

/-- The thread is in the state `Blocked`, waiting on some key. -/
def isBlocked : Waiter → Bool
  | blocked .. => true
  | _ => false

/-- The thread is in the state `Blocked`, waiting on `key`. -/
def isBlockedOn (key : FutexKey) : Waiter → Bool
  | blocked key' _ _ => key' = key
  | _ => false

/-- The key and the queue that the thread has found. -/
def place : Waiter → Option (FutexKey × ℕ)
  | idle | returned _ => none
  | found key queue _ | registered key queue _ | blocked key queue _ | running key queue _ _
  | leaving key queue _ => some (key, queue)

/-- The queue that the blocker of the thread is in. -/
def enqueuedIn : Waiter → Option ℕ
  | registered _ queue false | blocked _ queue false | running _ queue false _ => some queue
  | _ => none

end Waiter

/-- The maps in which `sys$futex` looks the queues up. -/
structure QueueMaps where
  /-- `m_futex_queues` of each process. -/
  privateQueues : ℕ → HashMap ℕ ℕ
  /-- `g_global_futex_queues`. -/
  globalQueues : HashMap ℕ (HashMap ℕ ℕ)

namespace QueueMaps

variable (self : QueueMaps)

/-- `find_futex_queue` that does not create the queue. -/
def findFutexQueue : FutexKey → Option ℕ
  | .ofProcess process address => (self.privateQueues process).find address
  | .ofVMObject vmobject offset => (self.globalQueues.find vmobject).bind (·.find offset)

/-- `queues->set(user_address_or_offset, futex_queue)`. The queues of a VM object are created with
the first of them. -/
def setFutexQueue (key : FutexKey) (queue : ℕ) : QueueMaps :=
  match key with
  | .ofProcess process address =>
    let queues := (self.privateQueues process).set address queue
    { self with privateQueues := Function.update self.privateQueues process queues }
  | .ofVMObject vmobject offset =>
    let queues := ((self.globalQueues.find vmobject).getD []).set offset queue
    { self with globalQueues := self.globalQueues.set vmobject queues }

/-- `remove_futex_queue`. -/
def removeFutexQueue (key : FutexKey) : QueueMaps :=
  match key with
  | .ofProcess process address =>
    let queues := (self.privateQueues process).remove address
    { self with privateQueues := Function.update self.privateQueues process queues }
  | .ofVMObject vmobject offset =>
    match self.globalQueues.find vmobject with
    | none => self
    | some queues =>
      if (queues.remove offset).isEmpty then
        { self with globalQueues := self.globalQueues.remove vmobject }
      else { self with globalQueues := self.globalQueues.set vmobject (queues.remove offset) }

variable {self : QueueMaps} {key key' : FutexKey} {queue : ℕ}

theorem findFutexQueue_setFutexQueue :
    (self.setFutexQueue key queue).findFutexQueue key' =
      if key = key' then some queue else self.findFutexQueue key' := by
  cases key with
  | ofProcess process address =>
    cases key' with
    | ofProcess process' address' =>
      by_cases h : process' = process
      · subst h
        simp [setFutexQueue, findFutexQueue, HashMap.find_set]
      · have h' : ¬ process = process' := fun e => h e.symm
        simp [setFutexQueue, findFutexQueue, h, h']
    | ofVMObject => simp [setFutexQueue, findFutexQueue]
  | ofVMObject vmobject offset =>
    cases key' with
    | ofProcess => simp [setFutexQueue, findFutexQueue]
    | ofVMObject vmobject' offset' =>
      by_cases h : vmobject = vmobject'
      · subst h
        simp only [setFutexQueue, findFutexQueue, HashMap.find_set_self, Option.bind_some,
          HashMap.find_set, FutexKey.ofVMObject.injEq, true_and]
        cases self.globalQueues.find vmobject <;> simp
      · simp [setFutexQueue, findFutexQueue, HashMap.find_set, h]

theorem findFutexQueue_removeFutexQueue :
    (self.removeFutexQueue key).findFutexQueue key' =
      if key = key' then none else self.findFutexQueue key' := by
  cases key with
  | ofProcess process address =>
    cases key' with
    | ofProcess process' address' =>
      by_cases h : process' = process
      · subst h
        simp [removeFutexQueue, findFutexQueue, HashMap.find_remove]
      · have h' : ¬ process = process' := fun e => h e.symm
        simp [removeFutexQueue, findFutexQueue, h, h']
    | ofVMObject => simp [removeFutexQueue, findFutexQueue]
  | ofVMObject vmobject offset =>
    simp only [removeFutexQueue]
    split
    next hnone =>
      split
      next h => simp [← h, findFutexQueue, hnone]
      next => rfl
    next queues hqueues =>
      cases key' with
      | ofProcess => split <;> simp [findFutexQueue]
      | ofVMObject vmobject' offset' =>
        have hfind := HashMap.find_remove queues offset offset'
        by_cases h : vmobject = vmobject'
        · subst h
          split
          next hempty =>
            -- The last queue of the VM object goes, and with it the entry of the object.
            have hall : HashMap.find ([] : HashMap ℕ ℕ) offset' =
                if offset = offset' then none else queues.find offset' :=
              List.isEmpty_iff.mp hempty ▸ hfind
            simp only [findFutexQueue, HashMap.find_remove, if_true, hqueues]
            simpa using hall
          next => simp [findFutexQueue, hqueues, hfind]
        · split <;> simp [findFutexQueue, HashMap.find_set, HashMap.find_remove, h]

end QueueMaps

/-- A call that woke threads without a bitset. -/
structure Wake where
  /-- `params.val`. -/
  count : ℕ
  /-- The number of threads that were blocked on the key. -/
  blocked : ℕ
  /-- The number of blocked threads that the call made runnable. -/
  woken : ℕ
  /-- What the call returned. -/
  returned : ℕ
deriving DecidableEq, Repr

/-- The futexes and the threads. -/
structure System (n : ℕ) where
  /-- The queue maps. -/
  maps : QueueMaps
  /-- The `FutexQueue` objects. -/
  queues : ℕ → FutexQueue n
  /-- The next object that `new FutexQueue` returns. -/
  nextQueue : ℕ
  /-- The threads. -/
  threads : Fin n → Waiter
  /-- The calls so far that woke threads without a bitset. -/
  wakes : List Wake

/-- What can happen next. -/
inductive Event (n : ℕ) where
  /-- A thread calls `sys$futex`; `userValue` is the value at the address, if it can be read. -/
  | futex (t : Fin n) (command : FutexCommand) (key : FutexKey) (val : ℕ) (userValue : Option ℕ)
  /-- The thread constructs its `FutexBlocker`. -/
  | register (t : Fin n)
  /-- `begin_blocking` and `set_state(Thread::Blocked)`. -/
  | beginBlocking (t : Fin n)
  /-- A signal, a timeout or the death of the thread. -/
  | interrupt (t : Fin n) (interruption : Interruption)
  /-- The thread runs again and destroys its `FutexBlocker`. -/
  | unblocked (t : Fin n)
  /-- The end of `do_wait`, under the lock. -/
  | relock (t : Fin n)

namespace System

variable {n : ℕ}

/-- No futex is in use. -/
def create : System n where
  maps := ⟨fun _ => [], []⟩
  queues := fun _ => ⟨.ofProcess 0 0, []⟩
  nextQueue := 0
  threads := fun _ => .idle
  wakes := []

variable (s : System n)

/-- `find_futex_queue` that creates the queue. -/
def findOrCreateFutexQueue (key : FutexKey) : ℕ × System n :=
  match s.maps.findFutexQueue key with
  | some queue => (queue, s)
  | none =>
    (s.nextQueue, { s with
      maps := s.maps.setFutexQueue key s.nextQueue
      queues := Function.update s.queues s.nextQueue ⟨key, []⟩
      nextQueue := s.nextQueue + 1 })

/-- `remove_futex_queue`, if `isEmpty`. -/
def removeFutexQueueIf (isEmpty : Bool) (key : FutexKey) : System n :=
  { s with maps := if isEmpty then s.maps.removeFutexQueue key else s.maps }

/-- The thread goes on at `waiter`. -/
def setThread (t : Fin n) (waiter : Waiter) : System n :=
  { s with threads := Function.update s.threads t waiter }

/-- The queue has other blockers. -/
def setBlockers (queue : ℕ) (blockers : List (FutexBlocker (Fin n))) : System n :=
  { s with queues := Function.update s.queues queue ⟨(s.queues queue).key, blockers⟩ }

/-- The blockers of the threads are unblocked. -/
def unblock (s : System n) (woken : List (Fin n)) : System n :=
  { s with threads := fun t => if t ∈ woken then (s.threads t).unblock else s.threads t }

/-- The number of threads that are blocked on the key. -/
def blockedOn (key : FutexKey) : ℕ :=
  (Finset.univ.filter fun t => (s.threads t).isBlockedOn key = true).card

/-- `do_wait`, up to the point where it gives up the lock. -/
def doWait (t : Fin n) (key : FutexKey) (val : ℕ) (userValue : Option ℕ)
    (bitset : BitVec 32) : System n :=
  match userValue with
  | none => s.setThread t (.returned (.error .EFAULT))
  | some value =>
    if value ≠ val then s.setThread t (.returned (.error .EAGAIN))
    else
      let (queue, s') := s.findOrCreateFutexQueue key
      s'.setThread t (.found key queue bitset)

/-- `do_wake`: the number of threads it woke, and those threads. -/
def doWake (key : FutexKey) (count : ℕ) (bitmask : Option (BitVec 32)) :
    Option (List (FutexBlocker (Fin n)) × System n) :=
  if count = 0 then some ([], s)
  else
    match s.maps.findFutexQueue key with
    | none => some ([], s)
    | some queue => do
      let (stay, woken) ← FutexQueue.wakeN count bitmask (s.queues queue).blockers
      let s' := (s.setBlockers queue stay).unblock (woken.map (·.thread))
      some (woken, s'.removeFutexQueueIf stay.isEmpty key)

/-- `FUTEX_WAKE` by the thread `t`, with a record of what it did. -/
def wake (t : Fin n) (key : FutexKey) (count : ℕ) : Option (System n) := do
  let (woken, s') ← s.doWake key count none
  let record : Wake :=
    { count := count
      blocked := s.blockedOn key
      woken := woken.countP fun blocker => (s.threads blocker.thread).isBlocked
      returned := woken.length }
  let s' := s'.setThread t (.returned (.ok woken.length))
  some { s' with wakes := record :: s.wakes }

/-- `FUTEX_WAKE_BITSET` by the thread `t`. -/
def wakeBitset (t : Fin n) (key : FutexKey) (count : ℕ) (bitset : BitVec 32) :
    Option (System n) := do
  let (woken, s') ← s.doWake key count (some bitset)
  some (s'.setThread t (.returned (.ok woken.length)))

/-- `sys$futex`. -/
def futex (t : Fin n) (command : FutexCommand) (key : FutexKey) (val : ℕ)
    (userValue : Option ℕ) : Option (System n) :=
  match command with
  | .FUTEX_WAIT => s.doWait t key val userValue 0
  | .FUTEX_WAIT_BITSET val3 =>
    if val3 = futexBitsetMatchAny then s.doWait t key val userValue 0
    else if val3 = 0 then s.setThread t (.returned (.error .EINVAL))
    else s.doWait t key val userValue val3
  | .FUTEX_WAKE => s.wake t key val
  | .FUTEX_WAKE_BITSET val3 =>
    if val3 = futexBitsetMatchAny then s.wake t key val
    else if val3 = 0 then s.setThread t (.returned (.error .EINVAL))
    else s.wakeBitset t key val val3

/-- The end of `do_wait`, from `lock.lock()` on. -/
def finishWait (t : Fin n) (key : FutexKey) (queue : ℕ)
    (interruption : Option Interruption) : System n :=
  let s' := s.removeFutexQueueIf (s.queues queue).blockers.isEmpty key
  if interruption = some .timeout then s'.setThread t (.returned (.error .ETIMEDOUT))
  else s'.setThread t (.returned (.ok 0))

/-- One step. A thread that is not at the point in question stays where it is. -/
def step : Event n → Option (System n)
  | .futex t command key val userValue =>
    match s.threads t with
    | .idle | .returned _ => s.futex t command key val userValue
    | _ => some s
  | .register t =>
    match s.threads t with
    | .found key queue bitset =>
      let s' := s.setBlockers queue ((s.queues queue).blockers ++ [⟨t, bitset⟩])
      some (s'.setThread t (.registered key queue false))
    | _ => some s
  | .beginBlocking t =>
    match s.threads t with
    | .registered key queue didUnblock => some (s.setThread t (.blocked key queue didUnblock))
    | _ => some s
  | .interrupt t interruption =>
    match s.threads t with
    | .blocked key queue didUnblock =>
      some (s.setThread t (.running key queue didUnblock (some interruption)))
    | .registered key queue didUnblock =>
      -- A timeout that is in the past already.
      if interruption = .timeout then
        some (s.setThread t (.running key queue didUnblock (some interruption)))
      else some s
    | _ => some s
  | .unblocked t =>
    match s.threads t with
    | .running key queue _ interruption =>
      let s' := s.setBlockers queue ((s.queues queue).blockers.filter fun b => b.thread ≠ t)
      some (s'.setThread t (.leaving key queue interruption))
    | _ => some s
  | .relock t =>
    match s.threads t with
    | .leaving key queue interruption => some (s.finishWait t key queue interruption)
    | _ => some s

end System

end Futex

end Kernel
