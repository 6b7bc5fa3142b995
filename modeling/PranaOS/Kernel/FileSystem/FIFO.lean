import PranaOS.ToMathlib.Run
import Mathlib.Tactic

/-!
# `Kernel/FileSystem/FIFO.cpp`: opening a FIFO

`open_direction_blocking`, called by any number of threads for one FIFO, and `detach`, called when a
description is closed. A call is cut into steps where other threads can run: it takes `m_open_lock`,
attaches a description and wakes the sleepers; it looks for a description of the other direction; it waits;
it returns. (A thread that enters the queue between `attach` and `wake_all` could as well have entered it
before.)

A `wake_all` without a sleeper leaves a request in the queue, which a much later call can find. One with a
sleeper leaves none, not even for a thread that has released the lock and is not in the queue yet
(`stale_and_lost_wake`).
-/

namespace Kernel

open Transition Function

/-- `WaitQueue`. -/
structure WaitQueue (T : Type) where
  /-- The threads of `m_blockers`. -/
  blockers : List T
  wakeRequested : Bool

namespace WaitQueue

variable {T : Type}

variable (queue : WaitQueue T)

/-- `wake_all`. -/
def wakeAll : WaitQueue T := ⟨[], queue.blockers.isEmpty⟩

/-- `add_blocker`, with `should_add_blocker`. -/
def addBlocker (t : T) : WaitQueue T :=
  if queue.wakeRequested then { queue with wakeRequested := false }
  else { queue with blockers := queue.blockers ++ [t] }

theorem wakeRequested_addBlocker (t : T) :
    (queue.addBlocker t).wakeRequested = false := by
  unfold addBlocker
  split <;> simp_all

theorem mem_addBlocker {t u : T} (h : u ≠ t) :
    u ∈ (queue.addBlocker t).blockers ↔ u ∈ queue.blockers := by
  unfold addBlocker
  split <;> simp [h]

end WaitQueue

namespace FIFO

/-- `Direction`, of a description. -/
inductive Direction where
  | Reader
  | Writer
deriving DecidableEq

/-- The direction of the descriptions that an open waits for. -/
def Direction.other : Direction → Direction
  | .Reader => .Writer
  | .Writer => .Reader

/-- Where a thread is in `open_direction_blocking`. -/
inductive Position where
  /-- It is not in a call. -/
  | outside
  /-- It takes `m_open_lock` next. -/
  | locking
  /-- It has the lock, its description is attached, and `wake_all` has been called. -/
  | attached
  /-- It has found no description of the other direction, and released the lock. -/
  | unlocked
  /-- It has called `wait_forever`. -/
  | waiting
deriving DecidableEq

/-- A thread that opens the FIFO, with what was attached meanwhile. -/
structure Opener where
  direction : Direction
  position : Position
  /-- A description of the other direction was attached at some time since the call began. -/
  met : Bool
  /-- One was attached after the thread released the lock in order to wait. -/
  metWaiting : Bool
  /-- The last call has returned a description without having met one of the other direction. -/
  returnedAlone : Bool

namespace Opener

/-- `open_direction_blocking` is called. -/
def call (direction : Direction) (attached : ℕ) : Opener :=
  ⟨direction, .locking, decide (0 < attached), false, false⟩

/-- A description is attached. -/
def see (self : Opener) (direction : Direction) : Opener :=
  if self.direction.other = direction then { self with met := true, metWaiting := true } else self

/-- The call returns the description. -/
def returns (self : Opener) : Opener :=
  { self with position := .outside, returnedAlone := !self.met }

end Opener

/-- The FIFO and the threads. -/
structure System (T : Type) where
  /-- `m_readers` and `m_writers`. -/
  attached : Direction → ℕ
  /-- `m_read_open_queue` and `m_write_open_queue`. -/
  openQueue : Direction → WaitQueue T
  /-- The thread that has `m_open_lock`. -/
  openLock : Option T
  openers : T → Opener

/-- What can happen next. -/
inductive Event (T : Type) where
  /-- `open_direction_blocking` is called. -/
  | call (t : T) (direction : Direction)
  /-- The call goes on, where `FileDescription::create` may fail. -/
  | next (t : T) (created : Bool)
  /-- A description is closed. -/
  | close (direction : Direction)

variable {T : Type} [DecidableEq T]

namespace System

/-- `FIFO(uid)`. -/
def create (T : Type) : System T where
  attached _ := 0
  openQueue _ := ⟨[], false⟩
  openLock := none
  openers _ := ⟨.Reader, .outside, false, false, false⟩

/-- A call goes on. -/
def next (s : System T) (t : T) (created : Bool) : System T :=
  let self := s.openers t
  match self.position with
  | .outside => s
  | .locking =>
    if s.openLock ≠ none then s
    else if created then
      { attached := Function.update s.attached self.direction (s.attached self.direction + 1)
        openQueue := Function.update s.openQueue self.direction (s.openQueue self.direction).wakeAll
        openLock := some t
        openers := Function.update (fun u => (s.openers u).see self.direction) t
          { self with position := .attached } }
    else { s with openers := Function.update s.openers t { self with position := .outside } }
  | .attached =>
    if s.attached self.direction.other = 0 then
      { s with
        openLock := none
        openers := Function.update s.openers t { self with position := .unlocked, metWaiting := false } }
    else { s with openLock := none, openers := Function.update s.openers t self.returns }
  | .unlocked =>
    { s with
      openQueue := Function.update s.openQueue self.direction.other
        ((s.openQueue self.direction.other).addBlocker t)
      openers := Function.update s.openers t { self with position := .waiting } }
  | .waiting =>
    -- The lock is taken for a moment before the call returns.
    if t ∈ (s.openQueue self.direction.other).blockers ∨ s.openLock ≠ none then s
    else { s with openers := Function.update s.openers t self.returns }

/-- What happens. Nothing does if the thread is in a call already, or if no description is there to be
closed. -/
def step (s : System T) : Event T → Option (System T)
  | .call t direction =>
    if (s.openers t).position ≠ .outside then some s
    else some { s with
      openers := Function.update s.openers t (.call direction (s.attached direction.other)) }
  | .next t created => some (s.next t created)
  | .close direction =>
    some { s with attached := Function.update s.attached direction (s.attached direction - 1) }

/-- No call has returned without having met a description of the other direction, and no thread is blocked
after one was attached. -/
structure OpenOk (s : System T) : Prop where
  met : ∀ t, (s.openers t).returnedAlone = false
  woken : ∀ t, (s.openers t).position = .waiting →
    t ∈ (s.openQueue (s.openers t).direction.other).blockers → (s.openers t).metWaiting = false

end System

/-- The thread has released the lock in order to wait for this direction, and is not in the queue yet. -/
def AboutToWait (openers : T → Opener) (direction : Direction) (t : T) : Prop :=
  (openers t).position = .unlocked ∧ (openers t).direction.other = direction

/-- `wake_all` reaches the threads that are about to wait: there is none, or only one and nobody sleeps. -/
def ReachesAll (openers : T → Opener) (direction : Direction) (queue : WaitQueue T) : Prop :=
  ∀ t, AboutToWait openers direction t →
    queue.blockers = [] ∧ ∀ u, AboutToWait openers direction u → u = t

/-- A thread that finds no description of the other direction finds no wake request either, and `wake_all`
reaches the threads that are about to wait. -/
def System.StepOk (s : System T) : Event T → Prop
  | .next t _ =>
    ((s.openers t).position = .attached → s.attached (s.openers t).direction.other = 0 →
      (s.openQueue (s.openers t).direction.other).wakeRequested = false) ∧
    ((s.openers t).position = .locking → s.openLock = none →
      ReachesAll s.openers (s.openers t).direction (s.openQueue (s.openers t).direction))
  | _ => True

/-! ## The invariant -/

/-- What holds of a thread, where `only` says that no other thread is about to wait in the same queue. One
that waits has met a description exactly if it is woken or will find the request. -/
def Opener.Ok (t : T) (openLock : Option T) (attached : Direction → ℕ)
    (openQueue : Direction → WaitQueue T) (only : Prop) (self : Opener) : Prop :=
  self.returnedAlone = false ∧ (self.metWaiting = true → self.met = true) ∧
  (∀ direction, t ∈ (openQueue direction).blockers →
    self.position = .waiting ∧ self.direction.other = direction) ∧
  match self.position with
  | .outside => True
  | .locking => 0 < attached self.direction.other → self.met = true
  | .attached => openLock = some t ∧ (0 < attached self.direction.other → self.met = true)
  | .unlocked => self.metWaiting = (openQueue self.direction.other).wakeRequested ∧
      (self.metWaiting = true → only)
  | .waiting =>
    if t ∈ (openQueue self.direction.other).blockers then self.metWaiting = false else self.met = true

namespace System

/-- The invariant. -/
def Inv (s : System T) : Prop :=
  ∀ t, (s.openers t).Ok t s.openLock s.attached s.openQueue
    (∀ u, AboutToWait s.openers (s.openers t).direction.other u → u = t)

variable {s : System T} {t : T} {opener : Opener} {openLock : Option T}
  {openQueue : Direction → WaitQueue T}

theorem aboutToWait_update {openers : T → Opener} {direction : Direction} {u : T} :
    AboutToWait (Function.update openers t opener) direction u ↔
      if u = t then opener.position = .unlocked ∧ opener.direction.other = direction
      else AboutToWait openers direction u := by
  unfold AboutToWait
  split_ifs with hu <;> simp [hu]

/-- One thread goes on. -/
theorem inv_update
    (hself : opener.Ok t openLock s.attached openQueue
      (∀ v, AboutToWait (Function.update s.openers t opener) opener.direction.other v → v = t))
    (hothers : ∀ u, u ≠ t → (s.openers u).Ok u openLock s.attached openQueue
      (∀ v, AboutToWait (Function.update s.openers t opener) (s.openers u).direction.other v → v = u)) :
    Inv ⟨s.attached, openQueue, openLock, Function.update s.openers t opener⟩ :=
  (forall_update_iff s.openers fun u self => self.Ok u openLock s.attached openQueue
    (∀ v, AboutToWait (Function.update s.openers t opener) self.direction.other v → v = u)).mpr
    ⟨hself, hothers⟩

/-- A thread that is in no queue moves, and nobody is about to wait because of it. -/
theorem Inv.leave (h : s.Inv) (hlock : ∀ u, u ≠ t → s.openLock = some u → openLock = some u)
    (hself : ∀ only, opener.Ok t openLock s.attached s.openQueue only)
    (hposition : opener.position ≠ .unlocked) :
    Inv ⟨s.attached, s.openQueue, openLock, Function.update s.openers t opener⟩ := by
  refine inv_update (hself _) fun u hu => ?_
  have hother := h u
  simp only [Opener.Ok, aboutToWait_update] at hother ⊢
  cases hpos : (s.openers u).position <;> simp only [hpos] at hother ⊢ <;> grind

theorem Inv.look (h : s.Inv) (hpos : (s.openers t).position = .attached)
    (hrequest : (s.openQueue (s.openers t).direction.other).wakeRequested = false) :
    Inv ⟨s.attached, s.openQueue, none, Function.update s.openers t
      { s.openers t with position := .unlocked, metWaiting := false }⟩ := by
  have ht := h t
  simp only [Opener.Ok, hpos] at ht
  refine inv_update ?_ fun u hu => ?_
  · simp only [Opener.Ok]
    grind
  · have hother := h u
    simp only [Opener.Ok, aboutToWait_update] at hother ⊢
    cases hposu : (s.openers u).position <;> simp only [hposu] at hother ⊢ <;> grind

theorem Inv.wait (h : s.Inv) (hpos : (s.openers t).position = .unlocked) :
    Inv ⟨s.attached, Function.update s.openQueue (s.openers t).direction.other
        ((s.openQueue (s.openers t).direction.other).addBlocker t), s.openLock,
      Function.update s.openers t { s.openers t with position := .waiting }⟩ := by
  have ht := h t
  simp only [Opener.Ok, hpos] at ht
  have habout : AboutToWait s.openers (s.openers t).direction.other t := ⟨hpos, rfl⟩
  refine inv_update ?_ fun u hu => ?_
  · simp only [Opener.Ok, update_apply, WaitQueue.addBlocker]
    grind
  · have hother := h u
    have hmem := fun d => (s.openQueue d).mem_addBlocker hu
    simp only [Opener.Ok, aboutToWait_update, update_apply] at hother ⊢
    cases hposu : (s.openers u).position <;> simp only [hposu] at hother ⊢ <;>
      grind [WaitQueue.wakeRequested_addBlocker]

theorem Inv.attach (h : s.Inv) (hpos : (s.openers t).position = .locking) (hlock : s.openLock = none)
    (hreach : ReachesAll s.openers (s.openers t).direction (s.openQueue (s.openers t).direction))
    {openers : T → Opener} (hself : openers t = { s.openers t with position := .attached })
    (hothers : ∀ u, u ≠ t → openers u = (s.openers u).see (s.openers t).direction) :
    Inv ⟨Function.update s.attached (s.openers t).direction (s.attached (s.openers t).direction + 1),
      Function.update s.openQueue (s.openers t).direction (s.openQueue (s.openers t).direction).wakeAll,
      some t, openers⟩ := by
  have habout : ∀ d u, AboutToWait openers d u → AboutToWait s.openers d u := by
    intro d u hu
    by_cases hut : u = t
    · grind [AboutToWait]
    · grind [AboutToWait, Opener.see]
  intro u
  have hu := h u
  by_cases hut : u = t
  · subst hut
    have hne : (s.openers u).direction.other ≠ (s.openers u).direction := by
      cases (s.openers u).direction <;> decide
    simp only [Opener.Ok, hpos, hself, update_apply, WaitQueue.wakeAll] at hu ⊢
    grind
  · simp only [Opener.Ok, hothers u hut, Opener.see, update_apply, WaitQueue.wakeAll] at hu ⊢
    have hreach := hreach u
    by_cases hd : (s.openers u).direction.other = (s.openers t).direction
    · simp only [hd, if_true] at hu ⊢
      cases hposu : (s.openers u).position <;> simp only [hposu] at hu ⊢ <;> grind [AboutToWait]
    · simp only [hd, if_false] at hu ⊢
      cases hposu : (s.openers u).position <;> simp only [hposu] at hu ⊢ <;> grind

theorem inv_create : Inv (create T) := fun t => by simp [create, Opener.Ok]

theorem Inv.openOk (h : s.Inv) : OpenOk s where
  met t := (h t).1
  woken t hpos hmem := by
    have ht := h t
    simp only [Opener.Ok, hpos, hmem, if_true] at ht
    exact ht.2.2.2

theorem Inv.next (h : s.Inv) (created : Bool) (hok : s.StepOk (.next t created)) :
    (s.next t created).Inv := by
  have ht := h t
  cases hpos : (s.openers t).position <;> simp only [System.next, Opener.Ok, hpos] at ht ⊢
  case outside => exact h
  case unlocked => exact h.wait hpos
  case locking =>
    split_ifs with hlock hcreated
    · exact h
    · have hnone := not_not.mp hlock
      exact h.attach hpos hnone (hok.2 hpos hnone) (update_self ..)
        fun u hu => update_of_ne hu ..
    · refine h.leave (fun _ _ => id) (fun only => ?_) (by simp)
      simp only [Opener.Ok]
      grind
  case attached =>
    split_ifs with hattached
    · exact h.look hpos (hok.1 hpos hattached)
    · refine h.leave (fun u hu hlock => ?_) (fun only => ?_) (by simp [Opener.returns])
      · grind
      · simp only [Opener.Ok, Opener.returns]
        grind
  case waiting =>
    split_ifs with hblocked
    · exact h
    · refine h.leave (fun _ _ => id) (fun only => ?_) (by simp [Opener.returns])
      simp only [Opener.Ok, Opener.returns]
      grind

/-- Every step that meets the condition keeps the invariant. -/
theorem step_spec (h : s.Inv) (event : Event T) (hok : s.StepOk event) :
    ∃ s', s.step event = some s' ∧ s'.Inv := by
  cases event with
  | call t direction =>
    have ht := h t
    simp only [step]
    split_ifs with hpos
    · exact ⟨s, rfl, h⟩
    · refine ⟨_, rfl, h.leave (fun _ _ => id) (fun only => ?_) (by simp [Opener.call])⟩
      simp only [Opener.Ok, Opener.call, not_not.mp hpos] at ht ⊢
      grind
  | next t created => exact ⟨_, rfl, h.next created hok⟩
  | close direction =>
    refine ⟨_, rfl, fun u => ?_⟩
    have hu := h u
    simp only [Opener.Ok, update_apply] at hu ⊢
    cases hpos : (s.openers u).position <;> simp only [hpos] at hu ⊢ <;> grind

/-- **Opening a FIFO.** In every run of any threads whose steps all meet the condition, an open returns only
if a description of the other direction was attached at some time since it began, and no open is blocked
after one was attached. -/
theorem openOk_of_meets (events : List (Event T)) (h : Meets step StepOk (create T) events) :
    Safe step OpenOk (create T) events :=
  safe_of_meets (fun _ h => h.openOk) (fun _ event h hok => step_spec h event hok) inv_create h

/-- A reader waits, and a writer wakes it. -/
def handshake (T : Type) (reader writer : T) : List (Event T) :=
  [.call reader .Reader, .next reader true, .next reader true, .next reader true,
    .call writer .Writer, .next writer true, .next writer true, .next reader true]

theorem openOk_of_meets_handshake : Safe step OpenOk (create Bool) (handshake Bool false true) := by
  refine openOk_of_meets _ ?_
  simp [handshake, Meets, step, System.next, StepOk, ReachesAll, AboutToWait, create, Opener.call, Opener.see,
    Opener.returns, WaitQueue.wakeAll, WaitQueue.addBlocker, Direction.other]

/-- After a reader and a writer have closed the FIFO, a writer finds the request that the reader left. A
reader sleeps, and another one enters the queue after a writer has woken the first. -/
theorem stale_and_lost_wake :
    ¬Safe step OpenOk (create Bool) (handshake Bool false true ++
      [.close .Reader, .close .Writer, .call true .Writer, .next true true, .next true true,
        .next true true, .next true true]) ∧
    ¬Safe step OpenOk (create (Fin 3))
      [.call 0 .Reader, .next 0 true, .next 0 true, .next 0 true, .call 1 .Reader, .next 1 true,
        .next 1 true, .call 2 .Writer, .next 2 true, .next 1 true] := by
  refine ⟨fun h => ?_, fun h => ?_⟩
  · exact absurd ((h.2 _ List.prefix_rfl _ rfl).met true) (by decide)
  · exact absurd ((h.2 _ List.prefix_rfl _ rfl).woken 1) (by decide)

end System

end FIFO

end Kernel
