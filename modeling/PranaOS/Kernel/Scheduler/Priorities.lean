import PranaOS.Kernel.Scheduler

/-!
# Priorities of ready threads

`pull_next_runnable_thread` returns an eligible thread of the best bucket that has one, and of these the
one that was queued first. But `thread_priority_to_priority_index` divides before it multiplies: all
priorities except the lowest one are mapped to bucket 0, so that they have no effect on each other
(`pullsBest_and_separates_iff`).
-/

namespace Kernel

open AK Transition List Option

namespace ReadyQueues

variable {T : Type} [DecidableEq T]

/-- The ready queues, and the threads in them with their buckets, in the order in which they have been
queued. -/
structure Queued (T : Type) where
  ready : ReadyQueues T
  waiting : List (T × ℕ)

/-- The calls on the ready queues. -/
inductive Call (T : Type) where
  | queue (t : T) (priority : {priority : ℕ // 1 ≤ priority ∧ priority ≤ 99})
  | dequeue (t : T) (allowed : Bool)
  | pull (eligible : T → Bool)

namespace Queued

/-- No thread has been queued. -/
def create : Queued T := ⟨.create, []⟩

/-- The thread does not wait any more. -/
def without (waiting : List (T × ℕ)) (t : T) : List (T × ℕ) := waiting.filter fun entry => entry.1 != t

/-- One call. -/
def step (s : Queued T) : Call T → Option (Queued T)
  | .queue t priority => do
    let bucket := threadPriorityToPriorityIndex priority
    let ready ← s.ready.queue t bucket
    some ⟨ready, s.waiting ++ [(t, bucket)]⟩
  | .dequeue t allowed => do
    let (dequeued, ready) ← s.ready.dequeue t allowed
    some ⟨ready, if dequeued then without s.waiting t else s.waiting⟩
  | .pull eligible => do
    let (pulled, ready) ← s.ready.pull eligible
    some ⟨ready, pulled.elim s.waiting (without s.waiting)⟩

/-! ## The property -/

/-- An eligible thread waits in the bucket, none waits in a better one, and none has been queued before it in
the same bucket. -/
structure IsBest (queued : Queued T) (eligible : T → Bool) (t : T) (bucket : ℕ) : Prop where
  isEligible : eligible t = true
  least : ∀ entry ∈ queued.waiting, eligible entry.1 = true → bucket ≤ entry.2
  first : ∃ front back, queued.waiting = front ++ (t, bucket) :: back ∧
    ∀ entry ∈ front, eligible entry.1 = true → entry.2 ≠ bucket

/-- `pull_next_runnable_thread` returns the best thread, and the idle thread only if no eligible thread
waits. -/
def PullsBest (s : Queued T) (eligible : T → Bool) : Prop :=
  (∃ ready, s.ready.pull eligible = some (none, ready) ∧ ∀ entry ∈ s.waiting, eligible entry.1 = false) ∨
    ∃ t bucket ready, s.ready.pull eligible = some (some t, ready) ∧ s.IsBest eligible t bucket

/-- The higher priority is not in a worse bucket, and in another one if the two are more than 1/32 of the
range apart. -/
def Separates (low high : ℕ) : Prop :=
  threadPriorityToPriorityIndex high ≤ threadPriorityToPriorityIndex low ∧
    (99 < 32 * (high - low) → threadPriorityToPriorityIndex high ≠ threadPriorityToPriorityIndex low)

instance (low high : ℕ) : Decidable (Separates low high) := inferInstanceAs (Decidable (_ ∧ _))

/-- The lowest priority has a bucket of its own. -/
theorem threadPriorityToPriorityIndex_eq {priority : ℕ} (h : 1 ≤ priority ∧ priority ≤ 99) :
    threadPriorityToPriorityIndex priority = if priority = 1 then 31 else 0 := by
  unfold threadPriorityToPriorityIndex
  split
  next hone => rw [hone]
  next hne => rw [Nat.div_eq_of_lt (by omega), Nat.zero_mul]

/-! ## The order of the threads -/

variable {s s' : Queued T} {call : Call T} {t : T} {bucket : ℕ}

/-- Every queue has the threads of its bucket in the order in which they have been queued. -/
structure Sorted (queued : Queued T) : Prop where
  inv : queued.ready.Inv
  queues_eq : ∀ q, queued.ready.queues q = (queued.waiting.filter (·.2 = q)).map Prod.fst

omit [DecidableEq T] in
theorem Sorted.runnablePriority_eq (h : s.Sorted) {entry : T × ℕ} (hentry : entry ∈ s.waiting) :
    s.ready.runnablePriority entry.1 = some entry.2 := by
  rw [← h.inv.mem_iff, h.queues_eq]
  exact List.mem_map_of_mem (mem_filter.mpr ⟨hentry, decide_eq_true rfl⟩)

/-- A thread leaves its queue, and the order of the others does not change. -/
theorem Sorted.remove (h : s.Sorted) (ht : s.ready.runnablePriority t = some bucket) :
    Sorted ⟨s.ready.remove t bucket, without s.waiting t⟩ where
  inv := inv_remove h.inv ht
  queues_eq q := by
    have hqueue : (s.ready.remove t bucket).queues q = (s.ready.queues q).filter (· != t) := by
      simp only [ReadyQueues.remove, Function.update_apply]
      split
      next hq => rw [hq, (h.inv.nodup bucket).erase_eq_filter]
      next hq =>
        -- the thread is not in this queue
        refine (filter_eq_self.mpr fun u hu => bne_iff_ne.mpr fun heq => hq ?_).symm
        rw [h.inv.mem_iff, heq, ht] at hu
        exact (some.inj hu).symm
    rw [hqueue, h.queues_eq, List.filter_map, List.filter_filter, without, List.filter_filter]
    simp [Bool.and_comm]

/-- `pull_next_runnable_thread` takes the best thread out of its queue. -/
theorem Sorted.pull (h : s.Sorted) (eligible : T → Bool) :
    (s.ready.pull eligible = some (none, s.ready) ∧ ∀ entry ∈ s.waiting, eligible entry.1 = false) ∨
      ∃ t bucket, s.ready.pull eligible = some (some t, s.ready.remove t bucket) ∧
        s.IsBest eligible t bucket := by
  have hloop := pullLoop_eq h.inv eligible fun q => mem_range.mp
  -- a queue in which nothing is found
  have hnone {entry : T × ℕ} (hentry : entry ∈ s.waiting)
      (hfind : ((s.ready.queues entry.2).find? eligible).map (·, entry.2) = none) :
      eligible entry.1 = false := by
    have hmem := (h.inv.mem_iff _ _).mpr (h.runnablePriority_eq hentry)
    simpa using find?_eq_none.mp (map_eq_none_iff.mp hfind) _ hmem
  have hlt {entry : T × ℕ} (hentry : entry ∈ s.waiting) : entry.2 ∈ List.range 32 :=
    mem_range.mpr (h.inv.lt _ _ (h.runnablePriority_eq hentry))
  cases hfound : (List.range 32).findSome? fun q => ((s.ready.queues q).find? eligible).map (·, q) with
  | none =>
    refine .inl ⟨by simp [ReadyQueues.pull, hloop, hfound], fun entry hentry => hnone hentry ?_⟩
    exact findSome?_eq_none_iff.mp hfound _ (hlt hentry)
  | some found =>
    obtain ⟨before, q, after, hrange, hq, hbefore⟩ := findSome?_eq_some_iff.mp hfound
    obtain ⟨u, hfind, rfl⟩ := map_eq_some_iff.mp hq
    -- the thread is the first eligible one of its bucket
    rw [h.queues_eq, find?_map, find?_filter] at hfind
    obtain ⟨⟨t, bucket⟩, hentry, rfl⟩ := map_eq_some_iff.mp hfind
    obtain ⟨hchosen, front, back, hsplit, hfront⟩ := find?_eq_some_iff_append.mp hentry
    obtain ⟨rfl, helig⟩ : bucket = q ∧ eligible t = true := by simpa using hchosen
    refine .inr ⟨t, bucket, by simp [ReadyQueues.pull, hloop, hfound], helig, fun entry hmem helig' => ?_,
      front, back, hsplit, fun entry hmem helig' heq => ?_⟩
    · -- no queue before it has an eligible thread
      have hsorted := hrange ▸ pairwise_lt_range
      have hmem' := hlt hmem
      rw [pairwise_append, pairwise_cons] at hsorted
      rw [hrange, mem_append, mem_cons] at hmem'
      rcases hmem' with hmem' | heq | hmem'
      · simp [hnone hmem (hbefore _ hmem')] at helig'
      · exact heq.ge
      · exact (hsorted.2.1.1 _ hmem').le
    · have hnot := hfront entry hmem
      simp [heq, helig'] at hnot

theorem Sorted.step (h : s.Sorted) (hstep : s.step call = some s') : s'.Sorted := by
  cases call with
  | queue t priority =>
    obtain ⟨ready, hqueue, ⟨⟩⟩ := bind_eq_some_iff.mp hstep
    have hlt : threadPriorityToPriorityIndex priority < 32 := by
      rw [threadPriorityToPriorityIndex_eq priority.2]
      split <;> decide
    obtain ⟨ready', hready', hinv, -⟩ := queue_spec h.inv (verify_bind_eq_some.mp hqueue).1 hlt
    obtain rfl : ready = ready' := some.inj (hqueue.symm.trans hready')
    refine ⟨hinv, fun q => ?_⟩
    simp only [ReadyQueues.queue, verify_bind_eq_some] at hqueue
    obtain ⟨-, -, ⟨⟩⟩ := hqueue
    simp only [filter_append, map_append, ← h.queues_eq, Function.update_apply]
    split
    next hq => simp [hq]
    next hq => simp [Ne.symm hq]
  | dequeue t allowed =>
    obtain ⟨⟨dequeued, ready⟩, hdequeue, ⟨⟩⟩ := bind_eq_some_iff.mp hstep
    simp only [ReadyQueues.dequeue] at hdequeue
    split at hdequeue
    next =>
      obtain ⟨-, ⟨⟩⟩ := verify_bind_eq_some.mp hdequeue
      exact h
    next bucket hbucket =>
      split at hdequeue
      next =>
        cases hdequeue
        exact h
      next =>
        obtain ⟨-, ⟨⟩⟩ := verify_bind_eq_some.mp hdequeue
        exact h.remove hbucket
  | pull eligible =>
    obtain ⟨⟨pulled, ready⟩, hpull, ⟨⟩⟩ := bind_eq_some_iff.mp hstep
    rcases h.pull eligible with ⟨hnone, -⟩ | ⟨t, bucket, hsome, hbest⟩
    · cases hpull.symm.trans hnone
      exact h
    · cases hpull.symm.trans hsome
      obtain ⟨front, back, hsplit, -⟩ := hbest.first
      exact h.remove (h.runnablePriority_eq (hsplit ▸ mem_append_cons_self))

/-- **Priorities.** In every state of the ready queues, `pull_next_runnable_thread` returns the eligible
thread of the best bucket that was queued first. Two priorities are in buckets as intended if and only if
the lower one is the lowest priority, or they are at most 1/32 of the range apart. -/
theorem pullsBest_and_separates_iff {calls : List (Call T)} (hrun : run step create calls = some s) :
    (∀ eligible, s.PullsBest eligible) ∧ ∀ low high, 1 ≤ low → low ≤ high → high ≤ 99 →
      (Separates low high ↔ low = 1 ∨ 32 * (high - low) ≤ 99) := by
  have hsorted : s.Sorted := by
    refine run_invariant (fun s call s' h hstep => h.step hstep) ⟨?_, fun q => rfl⟩ hrun
    constructor <;> simp [create, ReadyQueues.create]
  refine ⟨fun eligible => ?_, fun low high hlow hle hhigh => ?_⟩
  · rcases hsorted.pull eligible with ⟨hnone, hall⟩ | ⟨t, bucket, hsome, hbest⟩
    · exact .inl ⟨_, hnone, hall⟩
    · exact .inr ⟨t, bucket, _, hsome, hbest⟩
  · rw [Separates, threadPriorityToPriorityIndex_eq ⟨hlow, hle.trans hhigh⟩,
      threadPriorityToPriorityIndex_eq ⟨hlow.trans hle, hhigh⟩]
    split <;> split <;> omega

/-- A thread with the lowest priority and one with the highest are queued. -/
theorem pullsBest_and_separates_two :
    ∃ s, run step create [.queue 0 ⟨1, by decide⟩, .queue 1 ⟨99, by decide⟩] = some s ∧
      s.PullsBest (fun _ : ℕ => true) ∧ Separates 1 99 := by
  have heval : (run step create [.queue 0 ⟨1, by decide⟩, .queue (1 : ℕ) ⟨99, by decide⟩]).isSome := rfl
  obtain ⟨s, hrun⟩ := isSome_iff_exists.mp heval
  obtain ⟨hbest, hseparates⟩ := pullsBest_and_separates_iff hrun
  exact ⟨s, hrun, hbest _, (hseparates 1 99 (by decide) (by decide) (by decide)).mpr (.inl rfl)⟩

/-- Priority 10 and priority 90 have the same bucket, and a thread with priority 10 that was queued first is
pulled first. -/
theorem priorities_not_separated :
    ¬Separates 10 90 ∧
      ((run step create [.queue 0 ⟨10, by decide⟩, .queue (1 : ℕ) ⟨90, by decide⟩]).bind
        fun s => s.ready.pull fun _ => true).map Prod.fst = some (some 0) :=
  ⟨by decide, rfl⟩

end Queued

end ReadyQueues

end Kernel
