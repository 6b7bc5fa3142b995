import PranaOS.Kernel.Syscalls.Futex

/-!
# No futex waiter is lost

A thread that is blocked on a futex should be in the queue that the map holds for its key, since a
wake-up looks for it there (`WaitersFound`). Two things go wrong in `sys$futex`: a waiting thread may
block in a queue whose entry was removed after it looked the queue up, and a thread that was woken
removes the entry of its key even if that entry belongs to a newer queue with other waiters.
Moreover `wake_n` counts every blocker of the queue, also that of a thread that is not blocked yet or
no longer. Runs in which none of this happens are exactly those in which no waiter is lost
(`noLostWaiter_iff_meets`).
-/

namespace Kernel.Futex.System

open AK Transition List Function Option

variable {n : ℕ}

/-! ## The property -/

variable (s : System n)

/-- Every blocked thread is in the queue that the map holds for its key. -/
def WaitersFound : Prop :=
  ∀ t key queue didUnblock, s.threads t = .blocked key queue didUnblock →
    t ∈ (s.queues queue).blockers.map (·.thread) ∧ s.maps.findFutexQueue key = some queue

/-- The call woke as many blocked threads as it should, and returned that number. -/
def WakeOk (wake : Wake) : Prop :=
  wake.woken = min wake.count wake.blocked ∧ wake.returned = min wake.count wake.blocked

/-- No waiter is lost, and every wake-up so far did what it should. -/
def NoLostWaiter : Prop := WaitersFound s ∧ ∀ wake ∈ s.wakes, WakeOk wake

/-- The command wakes without a bitset. -/
def wakesAny : FutexCommand → Bool
  | .FUTEX_WAKE => true
  | .FUTEX_WAKE_BITSET val3 => val3 = futexBitsetMatchAny
  | _ => false

/-- The thread may call `sys$futex`. -/
def isFree : Waiter → Bool
  | .idle | .returned _ => true
  | _ => false

/-- The condition on a step:

* the threads that a call would wake are all blocked: each has begun to block, and none was
  interrupted;
* a thread that begins to block has not been unblocked since it registered its blocker, and its
  queue is still the one of its key;
* a thread that leaves an empty queue leaves nobody behind who is blocked on its key. -/
def StepOk : Event n → Prop
  | .futex t command key val _ =>
    isFree (s.threads t) = true → wakesAny command = true →
      ∀ queue, s.maps.findFutexQueue key = some queue →
        ∀ blocker ∈ (s.queues queue).blockers.take val, (s.threads blocker.thread).isBlocked = true
  | .beginBlocking t =>
    ∀ key queue didUnblock, s.threads t = .registered key queue didUnblock →
      didUnblock = false ∧ s.maps.findFutexQueue key = some queue
  | .relock t =>
    ∀ key queue interruption, s.threads t = .leaving key queue interruption →
      (s.queues queue).blockers = [] → ∀ u, (s.threads u).isBlockedOn key = false
  | _ => True

/-! ## What holds in every state -/

/-- The threads whose blockers are in the queue. -/
def threadsIn (queue : ℕ) : List (Fin n) := (s.queues queue).blockers.map (·.thread)

/-- The queue was created for the key. -/
def IsQueueOf (queue : ℕ) (key : FutexKey) : Prop :=
  queue < s.nextQueue ∧ (s.queues queue).key = key

/-- A thread at `waiter` has found a queue of its key, and its blocker is in the queue that it takes it
to be in. -/
def Placed (t : Fin n) (waiter : Waiter) : Prop :=
  (∀ key queue, waiter.place = some (key, queue) → s.IsQueueOf queue key) ∧
    ∀ queue, t ∈ s.threadsIn queue ↔ waiter.enqueuedIn = some queue

/-- What holds in every state that is reached, lost waiters or not. -/
structure Inv (s : System n) : Prop where
  map : ∀ key queue, s.maps.findFutexQueue key = some queue → s.IsQueueOf queue key
  placed : ∀ t, s.Placed t (s.threads t)
  nodup : ∀ queue, (s.threadsIn queue).Nodup

/-- What the property says of one thread: if it is blocked, its blocker has not been unblocked, and its
queue is the one of its key. -/
def Found (maps : QueueMaps) : Waiter → Prop
  | .blocked key queue didUnblock => didUnblock = false ∧ maps.findFutexQueue key = some queue
  | _ => True

/-- No waiter is lost. -/
def AllFound : Prop := ∀ t, Found s.maps (s.threads t)

/-- The state is one that is reached, and no waiter is lost exactly if `ok`. -/
structure SafeIff (s : System n) (ok : Prop) : Prop where
  inv : Inv s
  allFound_iff : AllFound s ↔ ok

variable {s : System n} {t u : Fin n} {key : FutexKey} {queue : ℕ} {waiter waiter' : Waiter}
variable {maps : QueueMaps}

/-- The blocker of a blocked thread is in its queue unless it has been unblocked. -/
theorem Inv.waitersFound_iff (hI : Inv s) : WaitersFound s ↔ AllFound s := by
  have hin : ∀ {t key queue didUnblock}, s.threads t = .blocked key queue didUnblock →
      (t ∈ s.threadsIn queue ↔ didUnblock = false) := by
    intro t key queue didUnblock hthread
    rw [(hI.placed t).2, hthread]
    cases didUnblock <;> simp [Waiter.enqueuedIn]
  constructor
  · intro h t
    cases hthread : s.threads t with
    | blocked key queue didUnblock =>
      obtain ⟨hmem, hfind⟩ := h t key queue didUnblock hthread
      exact ⟨(hin hthread).mp hmem, hfind⟩
    | _ => trivial
  · intro h t key queue didUnblock hthread
    have hfound := h t
    rw [hthread] at hfound
    exact ⟨(hin hthread).mpr hfound.1, hfound.2⟩

theorem SafeIff.noLostWaiter_iff {ok : Prop} (h : SafeIff s ok) :
    NoLostWaiter s ↔ ok ∧ ∀ wake ∈ s.wakes, WakeOk wake := by
  rw [NoLostWaiter, h.inv.waitersFound_iff, h.allFound_iff]

/-- A thread that is enqueued has found its queue. -/
theorem exists_place_of_enqueuedIn (h : waiter.enqueuedIn = some queue) :
    ∃ key, waiter.place = some (key, queue) := by
  unfold Waiter.enqueuedIn at h
  split at h <;> simp_all [Waiter.place]

/-- A queue that has not been created yet is empty. -/
theorem Inv.threadsIn_eq_nil (hI : Inv s) (h : s.nextQueue ≤ queue) : s.threadsIn queue = [] := by
  refine eq_nil_iff_forall_not_mem.mpr fun t hmem => ?_
  obtain ⟨key, hplace⟩ := exists_place_of_enqueuedIn (((hI.placed t).2 queue).mp hmem)
  have hlt := ((hI.placed t).1 _ _ hplace).1
  omega

/-- A thread that is blocked on a key is in the queue that the map holds for it. -/
theorem Inv.mem_of_isBlockedOn (hI : Inv s) (hfound : AllFound s)
    (h : (s.threads t).isBlockedOn key = true) :
    ∃ queue, s.maps.findFutexQueue key = some queue ∧ t ∈ s.threadsIn queue ∧
      (s.threads t).isBlocked = true := by
  have ht := hfound t
  cases hthread : s.threads t with
  | blocked key' queue didUnblock =>
    rw [hthread] at h ht
    obtain rfl : key' = key := by simpa [Waiter.isBlockedOn] using h
    refine ⟨queue, ht.2, ?_, rfl⟩
    rw [(hI.placed t).2, hthread, ht.1]
    rfl
  | _ => simp [hthread, Waiter.isBlockedOn] at h

/-- The thread goes on, and its blocker stays where it is. -/
theorem Placed.move (waiter' : Waiter) (h : s.Placed t waiter)
    (hplace : waiter'.place = none ∨ waiter'.place = waiter.place)
    (hin : waiter'.enqueuedIn = waiter.enqueuedIn) : s.Placed t waiter' := by
  refine ⟨fun key queue hplace' => h.1 key queue ?_, fun queue => hin ▸ h.2 queue⟩
  rcases hplace with hnone | hsame
  · simp [hnone] at hplace'
  · rw [← hsame, hplace']

/-- If one thread goes on, only that one can be lost. -/
theorem setThread_spec (hI : Inv s) (hfound : AllFound s) (h : s.Placed t waiter) :
    SafeIff (s.setThread t waiter) (Found s.maps waiter) where
  inv := ⟨hI.map, (forall_update_iff s.threads s.Placed).mpr ⟨h, fun u _ => hI.placed u⟩, hI.nodup⟩
  allFound_iff := (forall_update_iff s.threads fun _ => Found s.maps).trans
    (and_iff_left fun u _ => hfound u)

/-- Removing the entry of a key loses those who are blocked on it. -/
theorem removeFutexQueueIf_spec (key : FutexKey) (isEmpty : Bool) (hI : Inv s) (hfound : AllFound s) :
    SafeIff (s.removeFutexQueueIf isEmpty key)
      (isEmpty = true → ∀ u, (s.threads u).isBlockedOn key = false) := by
  cases isEmpty with
  | false => exact ⟨hI, iff_of_true hfound (by simp)⟩
  | true =>
    refine ⟨⟨fun key' queue h => hI.map key' queue ?_, hI.placed, hI.nodup⟩, ?_⟩
    · simp only [removeFutexQueueIf, if_true, QueueMaps.findFutexQueue_removeFutexQueue] at h
      split at h
      · simp at h
      · exact h
    · refine (forall_congr' fun u => ?_).trans ⟨fun h _ => h, fun h => h rfl⟩
      have hu := hfound u
      show Found (s.maps.removeFutexQueue key) (s.threads u) ↔ _
      cases hthread : s.threads u with
      | blocked key' queue didUnblock =>
        rw [hthread] at hu
        simp only [Found, QueueMaps.findFutexQueue_removeFutexQueue, hu.1, hu.2, Waiter.isBlockedOn]
        by_cases hkey : key = key' <;> simp [hkey, eq_comm]
      | _ => exact iff_of_true trivial rfl

/-- A thread goes on at `waiter` while the queue gets other blockers: its blocker is among them exactly
if it is in that queue then, and it is in no other queue than before. -/
def Moves (s : System n) (queue : ℕ) (blockers : List (FutexBlocker (Fin n))) (t : Fin n)
    (waiter : Waiter) : Prop :=
  waiter.place = (s.threads t).place ∧
    (t ∈ blockers.map (·.thread) ↔ waiter.enqueuedIn = some queue) ∧
    ∀ queue', queue' ≠ queue →
      (waiter.enqueuedIn = some queue' ↔ (s.threads t).enqueuedIn = some queue')

/-- The blockers of one queue change, and with them the threads that are in it. -/
theorem inv_setBlockers {blockers : List (FutexBlocker (Fin n))} {threads : Fin n → Waiter}
    (hI : Inv s) (hmoves : ∀ u, s.Moves queue blockers u (threads u))
    (hnodup : (blockers.map (·.thread)).Nodup) :
    Inv { s.setBlockers queue blockers with threads := threads } := by
  have hin : ∀ queue', (s.setBlockers queue blockers).threadsIn queue' =
      if queue' = queue then blockers.map (·.thread) else s.threadsIn queue' := by
    intro queue'
    simp only [threadsIn, setBlockers, update_apply]
    split <;> rfl
  have hkey : ∀ {queue' key}, s.IsQueueOf queue' key →
      (s.setBlockers queue blockers).IsQueueOf queue' key := by
    rintro queue' _ ⟨hlt, rfl⟩
    refine ⟨hlt, ?_⟩
    simp only [setBlockers, update_apply]
    split
    next h => rw [h]
    next => rfl
  refine ⟨fun key queue' h => hkey (hI.map key queue' h), fun u => ⟨fun key queue' h => ?_,
    fun queue' => ?_⟩, fun queue' => ?_⟩
  · exact hkey ((hI.placed u).1 key queue' ((hmoves u).1.symm.trans h))
  · refine (iff_of_eq (congrArg (u ∈ ·) (hin queue'))).trans ?_
    split
    next h => exact h ▸ (hmoves u).2.1
    next h => exact ((hI.placed u).2 queue').trans ((hmoves u).2.2 queue' h).symm
  · refine (congrArg List.Nodup (hin queue')).mpr ?_
    split
    · exact hnodup
    · exact hI.nodup queue'

/-! ## Looking a queue up -/

/-- `find_futex_queue` that creates the queue: afterwards the map holds the queue it returns, and
nothing changes for the threads. -/
theorem findOrCreateFutexQueue_spec (key : FutexKey) (hI : Inv s) (hfound : AllFound s) :
    Inv (s.findOrCreateFutexQueue key).2 ∧ AllFound (s.findOrCreateFutexQueue key).2 ∧
      (s.findOrCreateFutexQueue key).2.threads = s.threads ∧
        (s.findOrCreateFutexQueue key).2.wakes = s.wakes ∧
          (s.findOrCreateFutexQueue key).2.maps.findFutexQueue key =
            some (s.findOrCreateFutexQueue key).1 := by
  unfold findOrCreateFutexQueue
  split
  next queue hqueue => exact ⟨hI, hfound, rfl, rfl, hqueue⟩
  next hnone =>
    -- No thread has a reference to the new queue.
    have hkey : ∀ {queue key'}, s.IsQueueOf queue key' → queue < s.nextQueue + 1 ∧
        (Function.update s.queues s.nextQueue ⟨key, []⟩ queue).key = key' := by
      rintro queue _ ⟨hlt, rfl⟩
      exact ⟨by omega, by rw [update_of_ne hlt.ne]⟩
    have hin : ∀ queue, (Function.update s.queues s.nextQueue ⟨key, []⟩ queue).blockers.map (·.thread) =
        s.threadsIn queue := by
      intro queue
      by_cases h : queue = s.nextQueue
      · simp [h, hI.threadsIn_eq_nil le_rfl]
      · rw [update_of_ne h, threadsIn]
    refine ⟨⟨fun key' queue h => ?_, fun t => ⟨fun key' queue h => ?_, fun queue => ?_⟩,
      fun queue => ?_⟩, fun t => ?_, rfl, rfl, by simp [QueueMaps.findFutexQueue_setFutexQueue]⟩
    · rw [QueueMaps.findFutexQueue_setFutexQueue] at h
      split at h
      next h' =>
        obtain rfl := some.inj h
        exact ⟨Nat.lt_succ_self _, by simpa using h'⟩
      next => exact hkey (hI.map key' queue h)
    · exact hkey ((hI.placed t).1 key' queue h)
    · exact (iff_of_eq (congrArg (t ∈ ·) (hin queue))).trans ((hI.placed t).2 queue)
    · exact (congrArg List.Nodup (hin queue)).mpr (hI.nodup queue)
    · have ht := hfound t
      show Found (s.maps.setFutexQueue key s.nextQueue) (s.threads t)
      cases hthread : s.threads t with
      | blocked key' queue didUnblock =>
        rw [hthread] at ht
        refine ⟨ht.1, ?_⟩
        rw [QueueMaps.findFutexQueue_setFutexQueue, if_neg, ht.2]
        rintro rfl
        exact absurd (hnone.symm.trans ht.2) (by simp)
      | _ => trivial

/-! ## Waking -/

theorem found_unblock : Found maps waiter.unblock := by
  cases waiter <;> trivial

theorem place_unblock : waiter.unblock.place = waiter.place := by
  cases waiter <;> rfl

theorem enqueuedIn_unblock : waiter.unblock.enqueuedIn = none := by
  cases waiter <;> rfl

/-- The state after `wake_n` on a queue, and the removal of the queue if it is empty then. -/
def afterWake (s : System n) (key : FutexKey) (queue : ℕ)
    (stay woken : List (FutexBlocker (Fin n))) : System n :=
  ((s.setBlockers queue stay).unblock (woken.map (·.thread))).removeFutexQueueIf stay.isEmpty key

/-- Waking threads loses nobody: those that stay blocked are in the queue still, and the queue is
removed only if there is none. -/
theorem afterWake_spec (hI : Inv s) (hfound : AllFound s)
    {stay woken : List (FutexBlocker (Fin n))}
    (hperm : (stay ++ woken).Perm (s.queues queue).blockers)
    (hqueue : s.maps.findFutexQueue key = some queue) :
    Inv (s.afterWake key queue stay woken) ∧ AllFound (s.afterWake key queue stay woken) := by
  -- Each blocker of the queue stays or is woken, and not both.
  have hmem : ∀ t, t ∈ s.threadsIn queue ↔
      t ∈ stay.map (·.thread) ∨ t ∈ woken.map (·.thread) := by
    intro t
    rw [threadsIn, ← (hperm.map _).mem_iff, map_append, mem_append]
  have hnodup : (stay.map (·.thread) ++ woken.map (·.thread)).Nodup := by
    rw [← map_append, (hperm.map _).nodup_iff]
    exact hI.nodup queue
  obtain ⟨hstay, -, hdisjoint⟩ := nodup_append.mp hnodup
  have hI' : Inv ((s.setBlockers queue stay).unblock (woken.map (·.thread))) := by
    refine inv_setBlockers hI (fun t => ?_) hstay
    show s.Moves queue stay t (if t ∈ woken.map (·.thread) then (s.threads t).unblock else s.threads t)
    split
    next hwoken =>
      have hin := ((hI.placed t).2 queue).mp ((hmem t).mpr (Or.inr hwoken))
      refine ⟨place_unblock, ?_, fun queue' hne => ?_⟩ <;> rw [enqueuedIn_unblock]
      · exact iff_of_false (fun hstay => hdisjoint t hstay t hwoken rfl) (by simp)
      · simpa [hin] using hne.symm
    next hwoken =>
      refine ⟨rfl, ?_, fun _ _ => Iff.rfl⟩
      rw [← (hI.placed t).2, hmem t, or_iff_left hwoken]
  have hfound' : AllFound ((s.setBlockers queue stay).unblock (woken.map (·.thread))) := by
    intro t
    simp only [unblock]
    split
    · exact found_unblock
    · exact hfound t
  obtain ⟨hinv, hiff⟩ := removeFutexQueueIf_spec key stay.isEmpty hI' hfound'
  refine ⟨hinv, hiff.mpr fun hempty t => Bool.eq_false_iff.mpr fun hblocked => ?_⟩
  -- A thread that is blocked on the key is in the queue.
  obtain ⟨queue', hfind, hin, -⟩ := hI'.mem_of_isBlockedOn hfound' hblocked
  obtain rfl := some.inj (hfind.symm.trans hqueue)
  simp [threadsIn, unblock, setBlockers, List.isEmpty_iff.mp hempty] at hin

/-- The threads that are blocked on a key are the blocked ones of its queue. -/
theorem blockedOn_eq_countP (hI : Inv s) (hfound : AllFound s)
    (hqueue : s.maps.findFutexQueue key = some queue) :
    s.blockedOn key = (s.queues queue).blockers.countP fun b => (s.threads b.thread).isBlocked := by
  have hcount : (s.queues queue).blockers.countP (fun b => (s.threads b.thread).isBlocked) =
      (s.threadsIn queue).countP fun t => (s.threads t).isBlocked := by
    rw [threadsIn, countP_map]
    rfl
  rw [blockedOn, hcount, countP_eq_length_filter,
    ← toFinset_card_of_nodup ((hI.nodup queue).filter _)]
  congr 1
  ext t
  simp only [Finset.mem_filter, Finset.mem_univ, true_and, List.mem_toFinset, mem_filter]
  constructor
  · intro h
    obtain ⟨queue', hfind, hmem⟩ := hI.mem_of_isBlockedOn hfound h
    rwa [some.inj (hqueue.symm.trans hfind)]
  · rintro ⟨hmem, hblocked⟩
    have hin := ((hI.placed t).2 queue).mp hmem
    cases hthread : s.threads t with
    | blocked key' queue' didUnblock =>
      -- The thread is in this queue, and a queue belongs to one key.
      obtain rfl : queue' = queue := by
        cases didUnblock <;> simp_all [Waiter.enqueuedIn]
      have hkey := ((hI.placed t).1 key' queue' (by simp [hthread, Waiter.place])).2
      simp [Waiter.isBlockedOn, ← hkey, (hI.map key queue' hqueue).2]
    | _ => simp [hthread, Waiter.isBlocked] at hblocked

/-- The first `count` elements of a list satisfy `p` exactly if there are as many of them as there
would be if those that do not were left out. -/
theorem forall_take_iff {α : Type} (p : α → Bool) (l : List α) (count : ℕ) :
    (∀ a ∈ l.take count, p a = true) ↔
      (l.take count).countP p = min count (l.countP p) ∧
        (l.take count).length = min count (l.countP p) := by
  have hsplit : l.countP p = (l.take count).countP p + (l.drop count).countP p := by
    rw [← countP_append, take_append_drop]
  have hdrop : (l.drop count).countP p ≤ l.length - count :=
    countP_le_length.trans_eq (length_drop ..)
  have htake := length_take (l := l) (i := count)
  rw [← countP_eq_length]
  omega

theorem unblock_eq_self (h : isFree waiter = true) : waiter.unblock = waiter := by
  cases waiter <;> first | rfl | simp [isFree] at h

theorem enqueuedIn_of_isFree (h : isFree waiter = true) : waiter.enqueuedIn = none := by
  cases waiter <;> first | rfl | simp [isFree] at h

/-- What `do_wake` does: it loses nobody, and a thread that is not waiting stays as it is. -/
theorem doWake_spec (hI : Inv s) (hfound : AllFound s) (key : FutexKey) (count : ℕ)
    (bitmask : Option (BitVec 32)) :
    ∃ woken s', s.doWake key count bitmask = some (woken, s') ∧ Inv s' ∧ AllFound s' ∧
      s'.wakes = s.wakes ∧ (∀ t, isFree (s.threads t) = true → s'.threads t = s.threads t) ∧
        (bitmask = none → woken =
          ((s.maps.findFutexQueue key).elim [] fun queue => (s.queues queue).blockers.take count)) := by
  unfold doWake
  split
  next hcount =>
    refine ⟨[], s, rfl, hI, hfound, rfl, fun _ _ => rfl, fun _ => ?_⟩
    cases s.maps.findFutexQueue key <;> simp [hcount]
  next hcount =>
    split
    next hnone => exact ⟨[], s, rfl, hI, hfound, rfl, fun _ _ => rfl, fun _ => by simp [hnone]⟩
    next queue hqueue =>
      obtain ⟨stay, woken, hloop, hperm⟩ := FutexQueue.wakeLoop_spec bitmask
        (s.queues queue).blockers (Nat.pos_of_ne_zero hcount)
      obtain ⟨hI', hfound'⟩ := afterWake_spec hI hfound hperm hqueue
      refine ⟨woken, s.afterWake key queue stay woken, by simp [FutexQueue.wakeN, hloop, afterWake],
        hI', hfound', rfl, ?_, ?_⟩
      · intro t hfree
        simp only [afterWake, removeFutexQueueIf, unblock]
        split
        · exact unblock_eq_self hfree
        · rfl
      · rintro rfl
        rw [FutexQueue.wakeLoop_none (Nat.pos_of_ne_zero hcount)] at hloop
        simp_all

section

variable (hI : Inv s) (hfound : AllFound s) (hwakes : ∀ wake ∈ s.wakes, WakeOk wake)

/-- A step that leaves the record of the wake-ups alone. -/
theorem SafeIff.exists_step {s' : System n} {ok : Prop} (h : SafeIff s' ok)
    (hwakes : ∀ wake ∈ s'.wakes, WakeOk wake) :
    ∃ s'', some s' = some s'' ∧ Inv s'' ∧ (NoLostWaiter s'' ↔ ok) :=
  ⟨s', rfl, h.inv, h.noLostWaiter_iff.trans (and_iff_left hwakes)⟩

/-- Such a step that loses nobody, whatever its condition is. -/
theorem SafeIff.exists_safe_step {s' : System n} {ok : Prop} (h : SafeIff s' True)
    (hwakes : ∀ wake ∈ s'.wakes, WakeOk wake) (hok : ok) :
    ∃ s'', some s' = some s'' ∧ Inv s'' ∧ (NoLostWaiter s'' ↔ ok) :=
  SafeIff.exists_step ⟨h.inv, h.allFound_iff.trans (iff_of_true trivial hok)⟩ hwakes

section

variable (hfree : isFree (s.threads t) = true)

include hI hfound hfree

/-- A call that returns loses nobody. -/
theorem returned_spec (result : KResultOr ℕ) : SafeIff (s.setThread t (.returned result)) True :=
  setThread_spec hI hfound ((hI.placed t).move _ (.inl rfl) (enqueuedIn_of_isFree hfree).symm)

/-- A call that waits loses nobody. -/
theorem doWait_spec (key : FutexKey) (val : ℕ) (userValue : Option ℕ) (bitset : BitVec 32) :
    SafeIff (s.doWait t key val userValue bitset) True ∧
      (s.doWait t key val userValue bitset).wakes = s.wakes := by
  unfold doWait
  split
  · exact ⟨returned_spec hI hfound hfree _, rfl⟩
  · split
    · exact ⟨returned_spec hI hfound hfree _, rfl⟩
    · obtain ⟨hI', hfound', hthreads, hwakes, hqueue⟩ := findOrCreateFutexQueue_spec key hI hfound
      refine ⟨setThread_spec hI' hfound' ⟨fun key' queue' h => ?_, fun queue => ?_⟩, hwakes⟩
      · cases h
        exact hI'.map _ _ hqueue
      · refine ((hI'.placed t).2 queue).trans ?_
        rw [hthreads, enqueuedIn_of_isFree hfree]
        rfl

include hwakes

/-- A call that wakes without a bitset does what it should exactly if the threads at the front of
the queue are blocked. -/
theorem wake_spec (key : FutexKey) (count : ℕ) :
    ∃ s', s.wake t key count = some s' ∧ Inv s' ∧
      (NoLostWaiter s' ↔ ∀ queue, s.maps.findFutexQueue key = some queue →
        ∀ blocker ∈ (s.queues queue).blockers.take count,
          (s.threads blocker.thread).isBlocked = true) := by
  obtain ⟨woken, s', hwake, hI', hfound', -, hthreads, hwoken⟩ := doWake_spec hI hfound key count none
  have hfree' : isFree (s'.threads t) = true := by rwa [hthreads t hfree]
  have hreturned := returned_spec hI' hfound' hfree' (.ok woken.length)
  -- The new record is what decides.
  have hrecord : ∀ record : Wake, SafeIff { s'.setThread t (.returned (.ok woken.length)) with
      wakes := record :: s.wakes } True := fun record =>
    ⟨⟨hreturned.inv.map, hreturned.inv.placed, hreturned.inv.nodup⟩, hreturned.allFound_iff⟩
  refine ⟨_, by simp only [wake, hwake, bind_eq_bind, bind_some]; rfl, (hrecord _).inv, ?_⟩
  rw [(hrecord _).noLostWaiter_iff, true_and, forall_mem_cons, and_iff_left hwakes, WakeOk,
    hwoken rfl]
  cases hqueue : s.maps.findFutexQueue key with
  | none =>
    -- Nobody is blocked on the key, since nobody could be found.
    have hnobody : s.blockedOn key = 0 := by
      rw [blockedOn, Finset.card_eq_zero, Finset.filter_eq_empty_iff]
      intro u _ hu
      obtain ⟨queue', hfind, -⟩ := hI.mem_of_isBlockedOn hfound hu
      simp [hqueue] at hfind
    simp [hnobody]
  | some queue =>
    rw [blockedOn_eq_countP hI hfound hqueue]
    simp only [elim_some, some.injEq, forall_eq']
    exact (forall_take_iff (fun b : FutexBlocker (Fin n) => (s.threads b.thread).isBlocked) _ _).symm

/-! ## One step -/

/-- A call of `sys$futex`. -/
theorem futex_spec (command : FutexCommand) (key : FutexKey) (val : ℕ) (userValue : Option ℕ) :
    ∃ s', s.futex t command key val userValue = some s' ∧ Inv s' ∧
      (NoLostWaiter s' ↔ (wakesAny command = true →
        ∀ queue, s.maps.findFutexQueue key = some queue →
          ∀ blocker ∈ (s.queues queue).blockers.take val,
            (s.threads blocker.thread).isBlocked = true)) := by
  have hreturned (result : KResultOr ℕ) := returned_spec hI hfound hfree result
  have hwait (bitset : BitVec 32) := doWait_spec hI hfound hfree key val userValue bitset
  cases command with
  | FUTEX_WAIT => exact (hwait 0).1.exists_safe_step ((hwait 0).2 ▸ hwakes) (by simp [wakesAny])
  | FUTEX_WAIT_BITSET val3 =>
    simp only [futex]
    split_ifs
    · exact (hwait 0).1.exists_safe_step ((hwait 0).2 ▸ hwakes) (by simp [wakesAny])
    · exact (hreturned _).exists_safe_step hwakes (by simp [wakesAny])
    · exact (hwait val3).1.exists_safe_step ((hwait val3).2 ▸ hwakes) (by simp [wakesAny])
  | FUTEX_WAKE => simpa [futex, wakesAny] using wake_spec hI hfound hwakes hfree key val
  | FUTEX_WAKE_BITSET val3 =>
    simp only [futex]
    split_ifs with hany
    · simpa [wakesAny, hany] using wake_spec hI hfound hwakes hfree key val
    · exact (hreturned _).exists_safe_step hwakes (by simp [wakesAny, hany])
    · obtain ⟨woken, s', hwake, hI', hfound', heq, hthreads, -⟩ :=
        doWake_spec hI hfound key val (some val3)
      have hfree' : isFree (s'.threads t) = true := by rwa [hthreads t hfree]
      simp only [wakeBitset, hwake, bind_eq_bind, bind_some]
      exact (returned_spec hI' hfound' hfree' _).exists_safe_step (heq ▸ hwakes)
        (by simp [wakesAny, hany])

end

include hI hfound

/-- A thread registers its blocker. -/
theorem register_spec {bitset : BitVec 32} (hthread : s.threads t = .found key queue bitset) :
    SafeIff ((s.setBlockers queue ((s.queues queue).blockers ++ [⟨t, bitset⟩])).setThread t
      (.registered key queue false)) True := by
  have hnotin : t ∉ s.threadsIn queue := by
    rw [(hI.placed t).2, hthread]
    simp [Waiter.enqueuedIn]
  refine ⟨inv_setBlockers hI ((forall_update_iff _ _).mpr ⟨⟨?_, ?_, ?_⟩, fun u hu =>
    ⟨rfl, ?_, fun _ _ => Iff.rfl⟩⟩) ?_, iff_of_true ((forall_update_iff s.threads fun _ =>
      Found s.maps).mpr ⟨trivial, fun u _ => hfound u⟩) trivial⟩
  · rw [hthread]
    rfl
  · simp [Waiter.enqueuedIn]
  · simp +contextual [hthread, Waiter.enqueuedIn, eq_comm]
  · simpa [hu, setBlockers, threadsIn] using (hI.placed u).2 queue
  · rw [map_append]
    exact nodup_append_comm.mp (nodup_cons.mpr ⟨hnotin, hI.nodup queue⟩)

/-- A thread destroys its blocker. -/
theorem unblocked_spec {didUnblock : Bool} {interruption : Option Interruption}
    (hthread : s.threads t = .running key queue didUnblock interruption) :
    SafeIff ((s.setBlockers queue ((s.queues queue).blockers.filter fun b => b.thread ≠ t)).setThread t
      (.leaving key queue interruption)) True := by
  have hothers : ∀ u, u ∈ ((s.queues queue).blockers.filter fun b => b.thread ≠ t).map (·.thread) ↔
      u ∈ s.threadsIn queue ∧ u ≠ t := by
    intro u
    simp only [threadsIn, List.mem_map, mem_filter, decide_eq_true_eq]
    constructor
    · rintro ⟨b, ⟨hb, hne⟩, rfl⟩
      exact ⟨⟨b, hb, rfl⟩, hne⟩
    · rintro ⟨⟨b, hb, rfl⟩, hne⟩
      exact ⟨b, ⟨hb, hne⟩, rfl⟩
  refine ⟨inv_setBlockers hI ((forall_update_iff _ _).mpr ⟨⟨?_, ?_, ?_⟩, fun u hu =>
    ⟨rfl, ?_, fun _ _ => Iff.rfl⟩⟩) ((hI.nodup queue).sublist (filter_sublist.map _)),
    iff_of_true ((forall_update_iff s.threads fun _ => Found s.maps).mpr
      ⟨trivial, fun u _ => hfound u⟩) trivial⟩
  · rw [hthread]
    rfl
  · rw [hothers]
    simp [Waiter.enqueuedIn]
  · cases didUnblock <;> simp +contextual [hthread, Waiter.enqueuedIn, eq_comm]
  · rw [hothers, and_iff_left hu]
    exact (hI.placed u).2 queue

/-- A thread takes the lock again and returns. -/
theorem finishWait_spec {interruption : Option Interruption}
    (hthread : s.threads t = .leaving key queue interruption) :
    SafeIff (s.finishWait t key queue interruption)
      ((s.queues queue).blockers = [] → ∀ u, (s.threads u).isBlockedOn key = false) := by
  have hreturned (result : KResultOr ℕ) :
      SafeIff ((s.setThread t (.returned result)).removeFutexQueueIf (s.queues queue).blockers.isEmpty key)
        ((s.queues queue).blockers = [] → ∀ u, (s.threads u).isBlockedOn key = false) := by
    have hset : SafeIff (s.setThread t (.returned result)) True :=
      setThread_spec hI hfound ((hI.placed t).move _ (.inl rfl) (by rw [hthread]; rfl))
    have hblocked : (∀ u, ((s.setThread t (.returned result)).threads u).isBlockedOn key = false) ↔
        ∀ u, (s.threads u).isBlockedOn key = false :=
      forall_congr' fun u => by
        by_cases hu : u = t <;> simp [setThread, hu, hthread, Waiter.isBlockedOn]
    rw [← hblocked, ← List.isEmpty_iff]
    exact removeFutexQueueIf_spec key _ hset.inv (hset.allFound_iff.mpr trivial)
  unfold finishWait
  split
  · exact hreturned _
  · exact hreturned _

include hwakes

/-- Every step completes; afterwards no waiter is lost exactly if the step met the condition. -/
theorem step_spec (event : Event n) :
    ∃ s', s.step event = some s' ∧ Inv s' ∧ (NoLostWaiter s' ↔ StepOk s event) := by
  have hstay : SafeIff s True := ⟨hI, iff_of_true hfound trivial⟩
  cases event with
  | futex t command key val userValue =>
    simp only [step, StepOk]
    cases hthread : s.threads t with
    | idle | returned =>
      have hfree : isFree (s.threads t) = true := by rw [hthread]; rfl
      simpa [isFree] using futex_spec hI hfound hwakes hfree command key val userValue
    | _ => simpa [isFree] using hstay.exists_step hwakes
  | register t =>
    simp only [step, StepOk]
    split
    next hthread => exact (register_spec hI hfound hthread).exists_step hwakes
    next => exact hstay.exists_step hwakes
  | beginBlocking t =>
    simp only [step, StepOk]
    split
    next key queue didUnblock hthread =>
      have hplaced := (hI.placed t).move (.blocked key queue didUnblock)
        (.inr (by rw [hthread]; rfl)) (by rw [hthread]; cases didUnblock <;> rfl)
      simpa [hthread, Found] using (setThread_spec hI hfound hplaced).exists_step hwakes
    next hnot => exact hstay.exists_safe_step hwakes fun key queue d h => absurd h (hnot key queue d)
  | interrupt t interruption =>
    simp only [step, StepOk]
    have hrun {key : FutexKey} {queue : ℕ} {didUnblock : Bool}
        (hplace : (s.threads t).place = some (key, queue))
        (hin : (Waiter.blocked key queue didUnblock).enqueuedIn = (s.threads t).enqueuedIn) :
        SafeIff (s.setThread t (.running key queue didUnblock (some interruption))) True :=
      setThread_spec hI hfound ((hI.placed t).move _ (.inr hplace.symm)
        (by rw [← hin]; cases didUnblock <;> rfl))
    cases hthread : s.threads t with
    | blocked key queue didUnblock =>
      exact (hrun (by rw [hthread]; rfl) (by rw [hthread])).exists_step hwakes
    | registered key queue didUnblock =>
      simp only
      split
      · exact (hrun (by rw [hthread]; rfl) (by rw [hthread]; cases didUnblock <;> rfl)).exists_step hwakes
      · exact hstay.exists_step hwakes
    | _ => exact hstay.exists_step hwakes
  | unblocked t =>
    simp only [step, StepOk]
    split
    next hthread => exact (unblocked_spec hI hfound hthread).exists_step hwakes
    next => exact hstay.exists_step hwakes
  | relock t =>
    simp only [step, StepOk]
    split
    next key queue interruption hthread =>
      have hkept : (s.finishWait t key queue interruption).wakes = s.wakes := by
        simp only [finishWait]
        split <;> rfl
      simpa [hthread] using (finishWait_spec hI hfound hthread).exists_step (hkept ▸ hwakes)
    next hnot => exact hstay.exists_safe_step hwakes fun key queue i h => absurd h (hnot key queue i)

end

theorem inv_create : Inv (create : System n) where
  map key queue h := by cases key <;> simp [create, QueueMaps.findFutexQueue] at h
  placed t := ⟨by simp [create, Waiter.place], by simp [create, threadsIn, Waiter.enqueuedIn]⟩
  nodup queue := by simp [create, threadsIn]

/-! ## Whole runs -/

/-- **No futex waiter is lost.** In a run of any number of threads no waiter is ever lost and every
wake-up does what it should, if and only if all steps meet the condition. -/
theorem noLostWaiter_iff_meets (events : List (Event n)) :
    Safe step NoLostWaiter (create : System n) events ↔ Meets step StepOk create events := by
  apply safe_iff_meets (I := fun s => Inv s ∧ NoLostWaiter s)
  · exact fun s hI => hI.2
  · rintro s event ⟨hI, hwaiters, hwakes⟩
    obtain ⟨s', hstep, hI', hiff⟩ := step_spec hI (hI.waitersFound_iff.mp hwaiters) hwakes event
    exact ⟨s', hstep, hiff, fun hok => ⟨hI', hiff.mpr hok⟩⟩
  · exact ⟨inv_create, by simp [WaitersFound, create], by simp [create]⟩

/-- Thread 0 waits and is woken by thread 1, which removes the empty queue. Before thread 0 goes on,
thread 2 waits on the same key, in a new queue. Then thread 0 goes on, finds its own queue empty and
removes the entry of the key: thread 2 is blocked, and thread 1, which tries to wake it, wakes
nobody. -/
theorem waiter_lost :
    ∃ s', run step (create : System 3)
      [.futex 0 .FUTEX_WAIT (.ofProcess 1 16) 5 (some 5), .register 0, .beginBlocking 0,
        .futex 1 .FUTEX_WAKE (.ofProcess 1 16) 1 none,
        .futex 2 .FUTEX_WAIT (.ofProcess 1 16) 5 (some 5), .register 2, .beginBlocking 2,
        .unblocked 0, .relock 0,
        .futex 1 .FUTEX_WAKE (.ofProcess 1 16) 1 none] = some s' ∧
      s'.threads 2 = .blocked (.ofProcess 1 16) 1 false ∧
      s'.maps.findFutexQueue (.ofProcess 1 16) = none ∧
      s'.threads 1 = .returned (.ok 0) :=
  ⟨_, rfl, rfl, rfl, rfl⟩

end Kernel.Futex.System
