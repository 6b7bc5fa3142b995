import Mathlib.Data.List.Nodup
import PranaOS.AK.HashMap
import PranaOS.Kernel.KResult
import PranaOS.ToMathlib.List
import PranaOS.ToMathlib.Run

/-!
# `Kernel/FileSystem/Plan9FileSystem.cpp`: waiting for a reply

A thread that sends a 9P request saves a completion record under the tag of the request and blocks.
Another thread reads the replies of the server; it completes the record with the tag of the reply and
goes through all blockers to unblock the one that waits for it.

What happens under the locks of `read_and_dispatch_one_message` is one step, since what it does to one
blocker is independent of what it does to the others. `Blocker` does not override `should_block`, so a
thread begins to block whether its blocker was added or not, and `not_blocking` is never called.
-/

namespace Kernel.Plan9FS

open AK Transition Option List

/-- A `ReceiveCompletion`. -/
structure Completion (M : Type) where
  /-- `tag`. -/
  tag : UInt16
  /-- `result` and `message`, once `completed` is set. -/
  result : Option (KResultOr M)

/-- Where a thread is in `post_message_and_wait_for_a_reply`. -/
inductive Stage where
  /-- In `post_message`, after the completion has been saved, or before the `Blocker` is constructed. -/
  | posted
  /-- The `Blocker` has been constructed, and `begin_blocking` is still to come. -/
  | registered
  /-- The thread is in the state `Blocked`. -/
  | blocked
  /-- The thread is no longer blocked; its `Blocker` still exists. -/
  | resumed (interrupted : Bool)
deriving DecidableEq

/-- A thread in `post_message_and_wait_for_a_reply`. -/
structure Waiter (M : Type) where
  /-- Which completion record is its own. -/
  completion : ℕ
  stage : Stage
  /-- `m_did_unblock`. -/
  didUnblock : Bool
  /-- `m_message`, if it is no longer the request. -/
  message : Option M

namespace Waiter

variable {M : Type}

variable (self : Waiter M)

/-- `unblock_from_blocker`, which does nothing for a thread that is not blocking yet. -/
def unblockFromBlocker : Waiter M :=
  if self.stage = .blocked then { self with stage := .resumed false } else self

/-- The message of a completion without an error is moved to the waiter. -/
def takeMessage (completion : Completion M) : Waiter M :=
  match completion.result with
  | some (.ok message) => { self with message := some message }
  | _ => self

/-- `Blocker::unblock`, with the completion record of the blocker. -/
def unblock (completion : Completion M) (tag : UInt16) : Bool × Waiter M :=
  if self.didUnblock then (false, self)
  else
    let self := { self with didUnblock := true }
    if completion.tag ≠ tag then (false, self)
    else (true, (self.takeMessage completion).unblockFromBlocker)

end Waiter

/-- The file system and the threads that use it. -/
structure System (n : ℕ) (M : Type) where
  /-- All completion records. -/
  records : ℕ → Completion M
  /-- How many of them there are. -/
  recordCount : ℕ
  /-- `m_completions`. -/
  completions : HashMap UInt16 ℕ
  /-- The blockers of `m_completion_blocker`, by their threads. -/
  blockers : List (Fin n)
  /-- The threads, if they are in `post_message_and_wait_for_a_reply`. -/
  threads : Fin n → Option (Waiter M)
  /-- What the last call of a thread returned, and the completion record it used. The message is what
  the rest of the call looks at. -/
  results : Fin n → Option (ℕ × KResultOr M)

namespace System

variable {n : ℕ} {M : Type}

/-- Nothing has been sent. -/
def create (records : ℕ → Completion M) : System n M where
  records := records
  recordCount := 0
  completions := []
  blockers := []
  threads := fun _ => none
  results := fun _ => none

variable (s : System n M)

/-- A thread goes on. -/
def setThread (t : Fin n) (waiter : Option (Waiter M)) : System n M :=
  { s with threads := Function.update s.threads t waiter }

/-- The call of a thread returns, and its `Blocker` is destroyed. -/
def returnWith (t : Fin n) (waiter : Waiter M) (result : KResultOr M) :
    System n M :=
  { s with
    blockers := s.blockers.erase t
    threads := Function.update s.threads t none
    results := Function.update s.results t (some (waiter.completion, result)) }

/-- `BlockCondition::unblock`: the blockers for which `unblockOne` answers `true` are removed. -/
def unblockEach (unblockOne : Waiter M → Bool × Waiter M) : System n M :=
  { s with
    blockers := s.blockers.filter fun t => !(s.threads t).any fun waiter => (unblockOne waiter).1
    threads := fun t =>
      if t ∈ s.blockers then (s.threads t).map fun waiter => (unblockOne waiter).2
      else s.threads t }

/-- The completion record of a waiter. -/
def record (waiter : Waiter M) : Completion M := s.records waiter.completion

/-- `unblock_completed`. -/
def unblockCompleted (tag : UInt16) : System n M :=
  s.unblockEach fun waiter => waiter.unblock (s.record waiter) tag

/-- `unblock_all`. -/
def unblockAll : System n M :=
  s.unblockEach fun waiter => (true, waiter.unblockFromBlocker)

/-- `post_message` saves the completion record. The tag is not the tag of another request that waits
for its reply. -/
def post (t : Fin n) (tag : UInt16) : System n M :=
  if (s.threads t).isNone ∧ s.completions.find tag = none then
    { s with
      records := Function.update s.records s.recordCount ⟨tag, none⟩
      recordCount := s.recordCount + 1
      completions := s.completions.set tag s.recordCount
      threads := Function.update s.threads t (some ⟨s.recordCount, .posted, false, none⟩) }
  else s

/-- The constructor of `Blocker`, with `add_blocker` and `should_add_blocker`. -/
def register (t : Fin n) (waiter : Waiter M) : System n M :=
  let s' := s.setThread t (some { waiter with stage := .registered })
  if (s.record waiter).result.isSome then s'
  else { s' with blockers := s.blockers ++ [t] }

/-- The end of `post_message_and_wait_for_a_reply`, after `block` has returned. -/
def finish (t : Fin n) (waiter : Waiter M) (interrupted : Bool) : System n M :=
  if interrupted then s.returnWith t waiter (.error .EINTR)
  else
    match (s.record waiter).result, waiter.message with
    | some (.error _), _ => s.returnWith t waiter (.error Errno.EIO)
    | _, some message => s.returnWith t waiter (.ok message)
    -- The message is still the request, which is not the type of message that is expected.
    | _, none => s.returnWith t waiter (.error Errno.EIO)

/-- The message of a reply is stored in a completion record, which leaves the map. -/
def complete (completion : ℕ) (tag : UInt16) (message : M) : System n M :=
  { s with
    records := Function.update s.records completion
      { s.records completion with result := some (.ok message) }
    completions := s.completions.remove tag }

/-- `read_and_dispatch_one_message`, once the message has been read. -/
def dispatch (tag : UInt16) (message : M) : System n M :=
  match s.completions.find tag with
  | none => s
  | some completion => (s.complete completion tag message).unblockCompleted tag

/-- The error is stored in all completion records of the map, which is cleared. -/
def failAll (error : Errno) : System n M :=
  { s with
    records := fun completion =>
      if s.completions.any fun entry => entry.2 = completion then
        { s.records completion with result := some (.error error) }
      else s.records completion
    completions := [] }

/-- `thread_main`, after a message could not be read. -/
def abort (error : Errno) : System n M := (s.failAll error).unblockAll

/-- What can happen next. -/
inductive Event (n : ℕ) (M : Type) where
  | post (t : Fin n) (tag : UInt16)
  /-- `post_message` fails to send the message. -/
  | postFails (t : Fin n) (error : Errno)
  | register (t : Fin n)
  | beginBlocking (t : Fin n)
  /-- A signal, or the death of the thread, unblocks it. -/
  | interrupt (t : Fin n)
  | finish (t : Fin n)
  | dispatch (tag : UInt16) (message : M)
  | abort (error : Errno)

/-- One step. A thread that is elsewhere stays as it is. -/
def step : Event n M → Option (System n M)
  | .post t tag => some (s.post t tag)
  | .postFails t error =>
    match s.threads t with
    | some waiter =>
      some (if waiter.stage = .posted then s.returnWith t waiter (.error error) else s)
    | none => some s
  | .register t =>
    match s.threads t with
    | some waiter => some (if waiter.stage = .posted then s.register t waiter else s)
    | none => some s
  | .beginBlocking t =>
    match s.threads t with
    | some waiter =>
      some (if waiter.stage = .registered then s.setThread t (some { waiter with stage := .blocked })
        else s)
    | none => some s
  | .interrupt t =>
    match s.threads t with
    | some waiter =>
      some (if waiter.stage = .blocked then
        s.setThread t (some { waiter with stage := .resumed true }) else s)
    | none => some s
  | .finish t =>
    match s.threads t with
    | some waiter =>
      match waiter.stage with
      | .resumed interrupted => some (s.finish t waiter interrupted)
      | _ => some s
    | none => some s
  | .dispatch tag message => some (s.dispatch tag message)
  | .abort error => some (s.abort error)

/-! ## The property -/

/-- A waiter whose reply has not been dispatched is as it was: not woken by another reply, nor marked,
nor with another message. -/
def Untouched (waiter : Waiter M) : Prop :=
  waiter.didUnblock = false ∧ waiter.message = none ∧ waiter.stage ≠ .resumed false

/-- A waiter whose reply has been dispatched is not blocked, and if it was not interrupted, has the
reply as its message. -/
def Served (waiter : Waiter M) (result : KResultOr M) : Prop :=
  waiter.stage ≠ .blocked ∧
    ∀ message, waiter.stage = .resumed false → result = .ok message → waiter.message = some message

/-- The property. -/
structure RepliesDelivered (s : System n M) : Prop where
  pending : ∀ t waiter, s.threads t = some waiter → (s.record waiter).result = none →
    Untouched waiter
  answered : ∀ t waiter result, s.threads t = some waiter → (s.record waiter).result = some result →
    Served waiter result
  returned : ∀ t completion message, s.results t = some (completion, .ok message) →
    (s.records completion).result = some (.ok message)

/-- The condition on a step: when a reply is dispatched, no blocker but that of the thread that waits
for it is registered, and no thread begins to block after its reply has been dispatched. -/
def StepOk : Event n M → Prop
  | .dispatch tag _ => ∀ completion, s.completions.find tag = some completion →
      ∀ t ∈ s.blockers, ∀ waiter, s.threads t = some waiter → waiter.completion = completion
  | .beginBlocking t => ∀ waiter, s.threads t = some waiter → waiter.stage = .registered →
      (s.record waiter).result = none
  | _ => True

/-! ## The invariant -/

/-- What holds of a thread that waits for a reply. -/
structure WaiterOk (s : System n M) (t : Fin n) (waiter : Waiter M) : Prop where
  lt : waiter.completion < s.recordCount
  untouched : (s.record waiter).result = none → Untouched waiter
  find : (s.record waiter).result = none →
    s.completions.find (s.record waiter).tag = some waiter.completion
  served : ∀ result, (s.record waiter).result = some result → Served waiter result
  mem_blockers : t ∈ s.blockers ↔ waiter.stage ≠ .posted ∧ (s.record waiter).result = none

/-- The invariant of the runs whose steps meet the condition. -/
structure Inv (s : System n M) : Prop where
  waiterOk : ∀ t waiter, s.threads t = some waiter → WaiterOk s t waiter
  returned : ∀ t completion message, s.results t = some (completion, .ok message) →
    completion < s.recordCount ∧ (s.records completion).result = some (.ok message)
  entry : ∀ entry ∈ s.completions, entry.2 < s.recordCount ∧ (s.records entry.2).tag = entry.1 ∧
    (s.records entry.2).result = none
  waits : ∀ t ∈ s.blockers, ∃ waiter, s.threads t = some waiter
  nodup : s.blockers.Nodup

variable {s : System n M} {t : Fin n} {waiter waiter' : Waiter M}

theorem Inv.delivered (hI : Inv s) : RepliesDelivered s where
  pending t waiter h := (hI.waiterOk t waiter h).untouched
  answered t waiter result h := (hI.waiterOk t waiter h).served result
  returned t completion message h := (hI.returned t completion message h).2

theorem inv_create (records : ℕ → Completion M) : Inv (create records : System n M) where
  waiterOk t waiter h := by simp [create] at h
  returned t completion message h := by simp [create] at h
  entry entry h := by simp [create] at h
  waits t h := by simp [create] at h
  nodup := nodup_nil

/-- A waiter whose record and blocker are as they were. -/
theorem WaiterOk.frame {s' : System n M} (h : WaiterOk s t waiter)
    (hrecord : s'.record waiter = s.record waiter) (hcount : s.recordCount ≤ s'.recordCount)
    (hfind : (s.record waiter).result = none → s'.completions.find (s.record waiter).tag =
      s.completions.find (s.record waiter).tag)
    (hmem : t ∈ s'.blockers ↔ t ∈ s.blockers) : WaiterOk s' t waiter where
  lt := h.lt.trans_le hcount
  untouched := by rw [hrecord]; exact h.untouched
  find := by
    rw [hrecord]
    exact fun hnone => (hfind hnone).trans (h.find hnone)
  served := by rw [hrecord]; exact h.served
  mem_blockers := by rw [hmem, hrecord]; exact h.mem_blockers

/-- A waiter whose reply has been dispatched. -/
theorem WaiterOk.of_result {result : KResultOr M} (hlt : waiter.completion < s.recordCount)
    (hresult : (s.record waiter).result = some result) (hserved : Served waiter result)
    (hmem : t ∉ s.blockers) : WaiterOk s t waiter where
  lt := hlt
  untouched hnone := by simp [hresult] at hnone
  find hnone := by simp [hresult] at hnone
  served _ hsome := some.inj (hresult.symm.trans hsome) ▸ hserved
  mem_blockers := by simp [hmem, hresult]

/-- A waiter that has no reply and no blocker has not constructed it. -/
theorem WaiterOk.posted (h : WaiterOk s t waiter) (hmem : t ∉ s.blockers)
    (hnone : (s.record waiter).result = none) : waiter.stage = .posted := by
  by_contra hstage
  exact hmem (h.mem_blockers.mpr ⟨hstage, hnone⟩)

/-- The blocker of a waiter is registered only before the reply. -/
theorem Inv.result_eq_none (hI : Inv s) (h : s.threads t = some waiter) (hmem : t ∈ s.blockers) :
    (s.record waiter).result = none :=
  ((hI.waiterOk t waiter h).mem_blockers.mp hmem).2

/-- What a thread is, in terms of what it was before one thread went on. -/
theorem threads_update {u : Fin n} (h : Function.update s.threads t (some waiter') u = some waiter) :
    (u = t ∧ waiter = waiter') ∨ (u ≠ t ∧ s.threads u = some waiter) := by
  by_cases hut : u = t
  · subst hut
    exact Or.inl ⟨rfl, by simpa using h.symm⟩
  · exact Or.inr ⟨hut, by simpa [hut] using h⟩

/-- A waiter goes on with its completion record. -/
theorem inv_setThread_blockers (hI : Inv s) (h : s.threads t = some waiter) (waiter' : Waiter M)
    (hcompletion : waiter'.completion = waiter.completion)
    (huntouched : (s.record waiter).result = none → Untouched waiter → Untouched waiter')
    (hserved : ∀ result, (s.record waiter).result = some result → Served waiter result →
      Served waiter' result)
    {blockers : List (Fin n)} (hnodup : blockers.Nodup)
    (hother : ∀ u, u ≠ t → (u ∈ blockers ↔ u ∈ s.blockers))
    (hself : t ∈ blockers ↔ waiter'.stage ≠ .posted ∧ (s.record waiter).result = none) :
    Inv { s.setThread t (some waiter') with blockers := blockers } := by
  have hrecord : s.record waiter' = s.record waiter := by rw [record, record, hcompletion]
  have hok := hI.waiterOk t waiter h
  refine ⟨fun u w hu => ?_, hI.returned, hI.entry, fun u hu => ?_, hnodup⟩
  · rcases threads_update hu with ⟨rfl, rfl⟩ | ⟨hut, hu⟩
    · have hnew : WaiterOk { s with blockers := blockers } u w :=
        { lt := hcompletion ▸ hok.lt
          untouched := hrecord.symm ▸ fun hnone => huntouched hnone (hok.untouched hnone)
          find := hrecord.symm ▸ hcompletion.symm ▸ hok.find
          served := hrecord.symm ▸ fun result hsome => hserved result hsome (hok.served result hsome)
          mem_blockers := hrecord.symm ▸ hself }
      exact hnew.frame rfl le_rfl (fun _ => rfl) Iff.rfl
    · exact (hI.waiterOk u w hu).frame rfl le_rfl (fun _ => rfl) (hother u hut)
  · by_cases hut : u = t
    · exact ⟨waiter', by simp [setThread, hut]⟩
    · simpa [setThread, hut] using hI.waits u ((hother u hut).mp hu)

/-- A waiter goes on, and its blocker stays where it is. -/
theorem inv_setThread (hI : Inv s) (h : s.threads t = some waiter) (waiter' : Waiter M)
    (hcompletion : waiter'.completion = waiter.completion)
    (hstage : (s.record waiter).result = none → (waiter'.stage = .posted ↔ waiter.stage = .posted))
    (huntouched : (s.record waiter).result = none → Untouched waiter → Untouched waiter')
    (hserved : ∀ result, (s.record waiter).result = some result → Served waiter result →
      Served waiter' result) :
    Inv (s.setThread t (some waiter')) := by
  apply inv_setThread_blockers hI h waiter' hcompletion huntouched hserved hI.nodup (fun _ _ => Iff.rfl)
  rw [(hI.waiterOk t waiter h).mem_blockers]
  by_cases hnone : (s.record waiter).result = none
  · rw [Ne, Ne, hstage hnone]
  · simp [hnone]

/-- A call returns. If it returns a message, that is the reply. -/
theorem inv_returnWith (hI : Inv s) (h : s.threads t = some waiter) {result : KResultOr M}
    (hresult : ∀ message, result = .ok message → (s.record waiter).result = some (.ok message)) :
    Inv (s.returnWith t waiter result) := by
  have hthreads : ∀ u w, (s.returnWith t waiter result).threads u = some w →
      u ≠ t ∧ s.threads u = some w := by
    intro u w hu
    by_cases hut : u = t
    · simp [returnWith, hut] at hu
    · exact ⟨hut, by simpa [returnWith, hut] using hu⟩
  have hmem (u : Fin n) : u ∈ (s.returnWith t waiter result).blockers ↔ u ≠ t ∧ u ∈ s.blockers :=
    hI.nodup.mem_erase_iff
  refine ⟨fun u w hu => ?_, fun u completion message hu => ?_, hI.entry, fun u hu => ?_,
    hI.nodup.erase t⟩
  · obtain ⟨hut, hu⟩ := hthreads u w hu
    exact (hI.waiterOk u w hu).frame rfl le_rfl (fun _ => rfl) (by simp [hmem, hut])
  · by_cases hut : u = t
    · subst hut
      obtain ⟨rfl, rfl⟩ : waiter.completion = completion ∧ result = .ok message := by
        simpa [returnWith] using hu
      exact ⟨(hI.waiterOk u waiter h).lt, hresult message rfl⟩
    · exact hI.returned u completion message (by simpa [returnWith, hut] using hu)
  · obtain ⟨hut, hu⟩ := (hmem u).mp hu
    simpa [returnWith, hut] using hI.waits u hu

/-- `post_message` creates a new record. -/
theorem inv_post (hI : Inv s) (t : Fin n) (tag : UInt16) : Inv (s.post t tag) := by
  unfold post
  split
  next hfresh =>
    obtain ⟨hout, hfind⟩ := hfresh
    -- The records that are in use are older.
    have hold : ∀ completion, completion < s.recordCount →
        Function.update s.records s.recordCount ⟨tag, none⟩ completion = s.records completion :=
      fun completion hlt => Function.update_of_ne (Nat.ne_of_lt hlt) _ _
    have hnot : t ∉ s.blockers := by
      intro hmem
      obtain ⟨w, hw⟩ := hI.waits t hmem
      simp [hw] at hout
    refine ⟨fun u w hu => ?_, fun u completion message hu => ?_, fun entry hentry => ?_,
      fun u hu => ?_, hI.nodup⟩
    · rcases threads_update hu with ⟨rfl, rfl⟩ | ⟨-, hu⟩
      · exact { lt := Nat.lt_succ_self _
                untouched := fun _ => ⟨rfl, rfl, by simp⟩
                find := by simp [record]
                served := by simp [record]
                mem_blockers := by simp [hnot] }
      · have hok := hI.waiterOk u w hu
        refine hok.frame (hold _ hok.lt) (Nat.le_succ _) (fun hnone => ?_) Iff.rfl
        refine (HashMap.find_set _ _ _ _).trans (if_neg fun heq => ?_)
        have hfound := hok.find hnone
        rw [← heq, hfind] at hfound
        cases hfound
    · obtain ⟨hlt, hresult⟩ := hI.returned u completion message hu
      exact ⟨Nat.lt_succ_of_lt hlt, by simp [hold _ hlt, hresult]⟩
    · rcases HashMap.eq_or_mem_of_mem_set _ _ hentry with rfl | hentry
      · simp
      · obtain ⟨hlt, htag, hresult⟩ := hI.entry entry hentry
        simp only [hold _ hlt]
        exact ⟨Nat.lt_succ_of_lt hlt, htag, hresult⟩
    · have hut : u ≠ t := fun heq => hnot (heq ▸ hu)
      simpa [hut] using hI.waits u hu
  next => exact hI

/-- The constructor of `Blocker` adds the blocker unless the reply has been dispatched. -/
theorem inv_register (hI : Inv s) (h : s.threads t = some waiter) (hposted : waiter.stage = .posted) :
    Inv (s.register t waiter) := by
  unfold register
  cases hresult : (s.record waiter).result with
  | some result =>
    refine inv_setThread hI h _ rfl (fun hnone => ?_) (fun hnone => ?_) fun _ _ hserved => ?_
    · simp [hresult] at hnone
    · simp [hresult] at hnone
    · exact ⟨by simp, by simp⟩
  | none =>
    have hnot : t ∉ s.blockers := by
      simp [(hI.waiterOk t waiter h).mem_blockers, hposted]
    refine inv_setThread_blockers hI h { waiter with stage := .registered } rfl
      (fun _ huntouched => ?_) (fun _ hsome => ?_) ?_ ?_ ?_
    · exact ⟨huntouched.1, huntouched.2.1, by simp⟩
    · simp [hresult] at hsome
    · exact nodup_append.mpr ⟨hI.nodup, nodup_singleton t, by
        rintro u hu _ hv rfl
        exact hnot (mem_singleton.mp hv ▸ hu)⟩
    · intro u hu
      simp [hu]
    · simp [hresult]

/-! ## Replies -/

theorem completion_unblockFromBlocker :
    waiter.unblockFromBlocker.completion = waiter.completion := by
  unfold Waiter.unblockFromBlocker
  split <;> rfl

theorem stage_unblockFromBlocker_ne : waiter.unblockFromBlocker.stage ≠ .blocked := by
  unfold Waiter.unblockFromBlocker
  split
  next => simp
  next h => exact h

theorem completion_unblock (completion : Completion M) (tag : UInt16) :
    (waiter.unblock completion tag).2.completion = waiter.completion := by
  unfold Waiter.unblock Waiter.takeMessage
  split
  · rfl
  · simp only
    split
    · rfl
    · rw [completion_unblockFromBlocker]
      split <;> rfl

/-- A blocker that waits for another tag is marked as unblocked. -/
theorem unblock_of_tag_ne {completion : Completion M} {tag : UInt16} (h : waiter.didUnblock = false)
    (htag : completion.tag ≠ tag) :
    waiter.unblock completion tag = (false, { waiter with didUnblock := true }) := by
  simp [Waiter.unblock, h, htag]

/-- The blocker that waits for the tag gets the message and unblocks its thread. -/
theorem unblock_of_tag_eq (tag : UInt16) (message : M) (h : waiter.didUnblock = false) :
    ∃ waiter', waiter.unblock ⟨tag, some (.ok message)⟩ tag = (true, waiter') ∧
      waiter'.stage ≠ .blocked ∧ waiter'.message = some message := by
  refine ⟨{ waiter with didUnblock := true, message := some message }.unblockFromBlocker,
    by simp [Waiter.unblock, h, Waiter.takeMessage], stage_unblockFromBlocker_ne, ?_⟩
  unfold Waiter.unblockFromBlocker
  split <;> rfl

/-- The threads after `BlockCondition::unblock`. -/
theorem threads_unblockEach {unblockOne : Waiter M → Bool × Waiter M}
    (h : (s.unblockEach unblockOne).threads t = some waiter') :
    (t ∈ s.blockers ∧ ∃ waiter, s.threads t = some waiter ∧ waiter' = (unblockOne waiter).2) ∨
      (t ∉ s.blockers ∧ s.threads t = some waiter') := by
  simp only [unblockEach] at h
  split at h
  next hmem =>
    obtain ⟨waiter, hwaiter, heq⟩ := map_eq_some_iff.mp h
    exact Or.inl ⟨hmem, waiter, hwaiter, heq.symm⟩
  next hmem => exact Or.inr ⟨hmem, h⟩

/-- Some records get their results, and all blockers answer and are removed. -/
theorem inv_unblockEach (hI : Inv s) {records : ℕ → Completion M} {completions : HashMap UInt16 ℕ}
    {unblockOne : Waiter M → Bool × Waiter M}
    (hold : ∀ c result, (s.records c).result = some result → records c = s.records c)
    (hentry : ∀ entry ∈ completions, entry.2 < s.recordCount ∧ (records entry.2).tag = entry.1 ∧
      (records entry.2).result = none)
    (hpending : ∀ t waiter, s.threads t = some waiter → (records waiter.completion).result = none →
      records waiter.completion = s.record waiter ∧
        completions.find (s.record waiter).tag = s.completions.find (s.record waiter).tag)
    (hunblock : ∀ t ∈ s.blockers, ∀ waiter, s.threads t = some waiter →
      (unblockOne waiter).1 = true ∧ (unblockOne waiter).2.completion = waiter.completion ∧
        ∃ result, (records waiter.completion).result = some result ∧
          Served (unblockOne waiter).2 result) :
    Inv ({ s with records, completions }.unblockEach unblockOne) := by
  have hgone (u : Fin n) : u ∉ ({ s with records, completions }.unblockEach unblockOne).blockers := by
    intro hu
    obtain ⟨hmem, hstay⟩ := mem_filter.mp hu
    obtain ⟨w, hw⟩ := hI.waits u hmem
    simp [hw, (hunblock u hmem w hw).1] at hstay
  refine ⟨fun u w' hu => ?_, fun u c message hu => ?_, hentry, fun u hu => absurd hu (hgone u),
    hI.nodup.filter _⟩
  · rcases threads_unblockEach hu with ⟨hmem, w, hw, rfl⟩ | ⟨hmem, hw⟩
    · obtain ⟨-, hcompletion, result, hresult, hserved⟩ := hunblock u hmem w hw
      refine .of_result (hcompletion ▸ (hI.waiterOk u w hw).lt) ?_ hserved (hgone u)
      rw [record, hcompletion]
      exact hresult
    · have hok := hI.waiterOk u w' hw
      cases hresult : (records w'.completion).result with
      | none =>
        obtain ⟨hrecord, hfind⟩ := hpending u w' hw hresult
        exact hok.frame hrecord le_rfl (fun _ => hfind) (iff_of_false (hgone u) hmem)
      | some result =>
        refine .of_result hok.lt hresult ?_ (hgone u)
        cases hbefore : (s.record w').result with
        | none =>
          -- The waiter has not registered its blocker yet.
          rw [Served, hok.posted hmem hbefore]
          simp
        | some before =>
          rw [hold _ before hbefore] at hresult
          exact hok.served result hresult
  · obtain ⟨hlt, hreturned⟩ := hI.returned u c message hu
    exact ⟨hlt, (congrArg Completion.result (hold c _ hreturned)).trans hreturned⟩

section Dispatch

variable {completion : ℕ} {tag : UInt16} {message : M}

/-- Another waiter has another tag. -/
theorem tag_ne (hI : Inv s) (hfind : s.completions.find tag = some completion)
    (h : s.threads t = some waiter) (hnone : (s.record waiter).result = none)
    (hne : waiter.completion ≠ completion) : (s.record waiter).tag ≠ tag := by
  rintro rfl
  have hfound := (hI.waiterOk t waiter h).find hnone
  rw [hfind] at hfound
  exact hne (some.inj hfound).symm

theorem record_complete_of_ne (tag : UInt16) (message : M) (h : waiter.completion ≠ completion) :
    (s.complete completion tag message).record waiter = s.record waiter := by
  simp [complete, record, h]

/-- If another blocker is registered, it is marked as unblocked, and will not be unblocked again. -/
theorem not_repliesDelivered (hI : Inv s) (hfind : s.completions.find tag = some completion)
    (hmem : t ∈ s.blockers) (h : s.threads t = some waiter) (hne : waiter.completion ≠ completion) :
    ¬ RepliesDelivered ((s.complete completion tag message).unblockCompleted tag) := by
  have hnone := hI.result_eq_none h hmem
  have hrecord := record_complete_of_ne (s := s) tag message hne
  intro hdelivered
  have hmarked : ((s.complete completion tag message).unblockCompleted tag).threads t =
      some { waiter with didUnblock := true } := by
    have hblockers : t ∈ (s.complete completion tag message).blockers := hmem
    have hthread : (s.complete completion tag message).threads t = some waiter := h
    simp only [unblockCompleted, unblockEach, if_pos hblockers, hthread, map_some, hrecord]
    rw [unblock_of_tag_ne ((hI.waiterOk t waiter h).untouched hnone).1 (tag_ne hI hfind h hnone hne)]
  have := (hdelivered.pending t _ hmarked (by
    change ((s.complete completion tag message).record waiter).result = none
    rw [hrecord, hnone])).1
  simp at this

/-- If no other blocker is registered, the reply reaches its waiter. -/
theorem inv_dispatch (message : M) (hI : Inv s) (hfind : s.completions.find tag = some completion)
    (hok : ∀ t ∈ s.blockers, ∀ waiter, s.threads t = some waiter → waiter.completion = completion) :
    Inv ((s.complete completion tag message).unblockCompleted tag) := by
  obtain ⟨hlt, htag, hpending⟩ := hI.entry _ (HashMap.mem_of_find _ _ hfind)
  simp only at hlt htag hpending
  have hother : ∀ c, c ≠ completion →
      (s.complete completion tag message).records c = s.records c := fun c hc => by
    simp [complete, hc]
  refine inv_unblockEach hI (fun c result hresult => hother c ?_) (fun entry hentry => ?_)
    (fun t w hw hnone => ?_) fun t hmem w hw => ?_
  · rintro rfl
    simp [hpending] at hresult
  · obtain ⟨hmem, hkey⟩ := mem_filter.mp hentry
    obtain ⟨hlt', htag', hresult'⟩ := hI.entry entry hmem
    have hne : entry.2 ≠ completion := by
      intro heq
      rw [heq, htag] at htag'
      simp [htag'] at hkey
    have hsame := hother entry.2 hne
    exact ⟨hlt', (congrArg Completion.tag hsame).trans htag',
      (congrArg Completion.result hsame).trans hresult'⟩
  · have hne : w.completion ≠ completion := by
      rintro heq
      simp [heq] at hnone
    have hsame := hother w.completion hne
    refine ⟨hsame, (HashMap.find_remove _ _ _).trans (if_neg (Ne.symm ?_))⟩
    exact tag_ne hI hfind hw ((congrArg Completion.result hsame).symm.trans hnone) hne
  · -- The blocker that is visited is the one of the thread that waits for the reply.
    have heq := hok t hmem w hw
    have hrecord : (s.complete completion tag message).record w = ⟨tag, some (.ok message)⟩ := by
      simp [complete, record, heq, htag]
    obtain ⟨w', hunblock, hstage, hmessage⟩ := unblock_of_tag_eq tag message
      ((hI.waiterOk t w hw).untouched (hI.result_eq_none hw hmem)).1
    refine ⟨?_, completion_unblock _ tag, .ok message, congrArg Completion.result hrecord, ?_⟩
    · rw [hrecord, hunblock]
    · rw [hrecord, hunblock]
      refine ⟨hstage, ?_⟩
      rintro _ - ⟨⟩
      exact hmessage

/-- A reply is dispatched. -/
theorem dispatch_spec (hI : Inv s) (tag : UInt16) (message : M) :
    (RepliesDelivered (s.dispatch tag message) ↔ StepOk s (.dispatch tag message)) ∧
      (StepOk s (.dispatch tag message) → Inv (s.dispatch tag message)) := by
  unfold dispatch
  cases hfind : s.completions.find tag with
  | none =>
    have hok : StepOk s (.dispatch tag message) := by simp [StepOk, hfind]
    exact ⟨iff_of_true hI.delivered hok, fun _ => hI⟩
  | some completion =>
    have hinv : StepOk s (.dispatch tag message) → _ :=
      fun hok => inv_dispatch message hI hfind (hok completion hfind)
    refine ⟨⟨fun hdelivered => ?_, fun hok => (hinv hok).delivered⟩, hinv⟩
    intro c hc t hmem waiter h
    obtain rfl : completion = c := some.inj (hfind.symm.trans hc)
    by_contra hne
    exact not_repliesDelivered hI hfind hmem h hne hdelivered

end Dispatch

variable (hI : Inv s)

include hI

/-- A record that has a result already is not in the map, and keeps its result. -/
theorem records_failAll_of_some (error : Errno) {completion : ℕ} {result : KResultOr M}
    (h : (s.records completion).result = some result) :
    (s.failAll error).records completion = s.records completion := by
  apply if_neg
  rw [List.any_eq_true]
  rintro ⟨entry, hentry, heq⟩
  obtain rfl : entry.2 = completion := by simpa using heq
  simp [(hI.entry entry hentry).2.2] at h

/-- A waiter without a reply gets the error. -/
theorem result_failAll (error : Errno) (h : s.threads t = some waiter)
    (hnone : (s.record waiter).result = none) :
    ((s.failAll error).record waiter).result = some (.error error) := by
  have hmem : (s.completions.any fun entry => entry.2 = waiter.completion) = true := by
    rw [List.any_eq_true]
    exact ⟨_, HashMap.mem_of_find _ _ ((hI.waiterOk t waiter h).find hnone), by simp⟩
  simp only [record, failAll, hmem, if_true]

/-- The reading thread gives up: every waiter gets the error. -/
theorem inv_abort (error : Errno) : Inv (s.abort error) := by
  refine inv_unblockEach hI (fun c result hresult => records_failAll_of_some hI error hresult)
    (by simp) (fun t w hw hnone => ?_) fun t hmem w hw => ?_
  · -- Nobody is without a result any more.
    cases hbefore : (s.record w).result with
    | none =>
      have hfailed := result_failAll hI error hw hbefore
      exact absurd (hfailed.symm.trans hnone) (by simp)
    | some result =>
      have hkept := congrArg Completion.result (records_failAll_of_some hI error hbefore)
      exact absurd ((hkept.trans hbefore).symm.trans hnone) (by simp)
  · exact ⟨rfl, completion_unblockFromBlocker, .error error,
      result_failAll hI error hw (hI.result_eq_none hw hmem), stage_unblockFromBlocker_ne, by simp⟩

/-! ## Whole runs -/

/-- A thread that begins to block after its reply has been dispatched is never unblocked. -/
theorem beginBlocking_spec (h : s.threads t = some waiter)
    (hregistered : waiter.stage = .registered) :
    (RepliesDelivered (s.setThread t (some { waiter with stage := .blocked })) ↔
        (s.record waiter).result = none) ∧
      ((s.record waiter).result = none →
        Inv (s.setThread t (some { waiter with stage := .blocked }))) := by
  have hinv : (s.record waiter).result = none →
      Inv (s.setThread t (some { waiter with stage := .blocked })) := by
    intro hnone
    refine inv_setThread hI h _ rfl (by simp [hregistered]) ?_ ?_
    · exact fun _ huntouched => ⟨huntouched.1, huntouched.2.1, by simp⟩
    · intro result hsome
      simp [hnone] at hsome
  refine ⟨⟨fun hdelivered => ?_, fun hnone => (hinv hnone).delivered⟩, hinv⟩
  by_contra hne
  obtain ⟨result, hresult⟩ := ne_none_iff_exists'.mp hne
  have hserved := hdelivered.answered t { waiter with stage := .blocked } result
    (by simp [setThread]) hresult
  exact hserved.1 rfl

/-- What a call returns when its thread is no longer blocked. -/
theorem inv_finish (h : s.threads t = some waiter) {interrupted : Bool}
    (hstage : waiter.stage = .resumed interrupted) : Inv (s.finish t waiter interrupted) := by
  unfold finish
  cases interrupted with
  | true => exact inv_returnWith hI h (by simp)
  | false =>
    simp only [Bool.false_eq_true, if_false]
    split
    next => exact inv_returnWith hI h (by simp)
    next message hmessage hnotError =>
      refine inv_returnWith hI h ?_
      rintro _ ⟨⟩
      -- The thread was not interrupted, so there is a result, and it is not an error.
      cases hresult : (s.record waiter).result with
      | none => exact absurd hstage (hI.delivered.pending t waiter h hresult).2.2
      | some result =>
        cases result with
        | error error => exact (hnotError error hresult).elim
        | ok reply =>
          have hreply := (hI.delivered.answered t waiter _ h hresult).2 reply hstage rfl
          rw [hmessage] at hreply
          rw [some.inj hreply]
    next => exact inv_returnWith hI h (by simp)

/-- Every step keeps the invariant if it meets the condition, and breaks the property if it does
not. -/
theorem step_spec (event : Event n M) :
    ∃ s', s.step event = some s' ∧ (RepliesDelivered s' ↔ StepOk s event) ∧
      (StepOk s event → Inv s') := by
  have hsafe : ∀ {s' : System n M} {ok : Prop}, ok → Inv s' →
      (RepliesDelivered s' ↔ ok) ∧ (ok → Inv s') :=
    fun hok hI' => ⟨iff_of_true hI'.delivered hok, fun _ => hI'⟩
  cases event with
  | post t tag => exact ⟨_, rfl, hsafe trivial (inv_post hI t tag)⟩
  | postFails t error =>
    simp only [step]
    split
    next waiter h =>
      refine ⟨_, rfl, hsafe trivial ?_⟩
      split
      · exact inv_returnWith hI h (by simp)
      · exact hI
    next => exact ⟨s, rfl, hsafe trivial hI⟩
  | register t =>
    simp only [step]
    split
    next waiter h =>
      refine ⟨_, rfl, hsafe trivial ?_⟩
      split
      next hposted => exact inv_register hI h hposted
      next => exact hI
    next => exact ⟨s, rfl, hsafe trivial hI⟩
  | beginBlocking t =>
    simp only [step, StepOk]
    cases h : s.threads t with
    | none => exact ⟨s, rfl, hsafe (by simp) hI⟩
    | some waiter =>
      simp only [some.injEq, forall_eq']
      refine ⟨_, rfl, ?_⟩
      split
      next hregistered =>
        simp only [hregistered, true_imp_iff]
        exact beginBlocking_spec hI h hregistered
      next hne => exact hsafe (fun hregistered => absurd hregistered hne) hI
  | interrupt t =>
    simp only [step]
    split
    next waiter h =>
      refine ⟨_, rfl, hsafe trivial ?_⟩
      split
      next hblocked =>
        refine inv_setThread hI h _ rfl (by simp [hblocked]) ?_ ?_
        · exact fun _ huntouched => ⟨huntouched.1, huntouched.2.1, by simp⟩
        · exact fun _ _ _ => ⟨by simp, by simp⟩
      next => exact hI
    next => exact ⟨s, rfl, hsafe trivial hI⟩
  | finish t =>
    simp only [step]
    split
    next waiter h =>
      split
      next interrupted hstage => exact ⟨_, rfl, hsafe trivial (inv_finish hI h hstage)⟩
      next => exact ⟨s, rfl, hsafe trivial hI⟩
    next => exact ⟨s, rfl, hsafe trivial hI⟩
  | dispatch tag message => exact ⟨_, rfl, dispatch_spec hI tag message⟩
  | abort error => exact ⟨_, rfl, hsafe trivial (inv_abort hI error)⟩

omit hI

/-- **Dispatch of replies.** In a run of any number of threads every reply reaches the thread that waits
for it and no other, if and only if all steps meet the condition. -/
theorem repliesDelivered_iff_meets (records : ℕ → Completion M) (events : List (Event n M)) :
    Safe step RepliesDelivered (create records : System n M) events ↔
      Meets step StepOk (create records) events :=
  safe_iff_meets (fun _ hI => hI.delivered) (fun _ event hI => step_spec hI event)
    (inv_create records)

/-- Threads 0 and 1 wait for the tags 0 and 1. The reply with tag 0 marks the blocker of thread 1, so
that the reply with tag 1 does not unblock it: the thread stays blocked, and its blocker in the
list. Thread 2 begins to block after its reply has been dispatched, and stays blocked as well. -/
theorem reply_lost :
    ∃ s', run step (create fun _ => ⟨0, none⟩ : System 3 ℕ)
      [.post 0 0, .register 0, .beginBlocking 0, .post 1 1, .register 1, .beginBlocking 1,
        .dispatch 0 10, .dispatch 1 11,
        .post 2 2, .dispatch 2 12, .register 2, .beginBlocking 2] = some s' ∧
      (s'.records 1).result = some (.ok 11) ∧ s'.threads 1 = some ⟨1, .blocked, true, none⟩ ∧
      (s'.records 2).result = some (.ok 12) ∧ s'.threads 2 = some ⟨2, .blocked, false, none⟩ ∧
      s'.blockers = [1] :=
  ⟨_, rfl, rfl, rfl, rfl, rfl, rfl⟩

end System

end Kernel.Plan9FS
