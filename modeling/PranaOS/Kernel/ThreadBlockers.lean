import PranaOS.Kernel.DoubleBuffer

/-!
# `Kernel/ThreadBlockers.cpp`: waiting until a file is readable

A thread that calls `block<ReadBlocker>` registers a blocker with the file. From then on every
`evaluate_block_conditions` of the file asks whether the file can be read, and if so marks the
blocker and makes the thread runnable. A signal, a timeout or the death of the thread makes it
runnable as well, but leaves the blocker registered until the thread has run.
-/

namespace Kernel

/-- What makes a blocked thread runnable apart from its blocker. -/
inductive Interruption where
  | signal
  | death
  | timeout
deriving DecidableEq, Repr

/-- `Thread::BlockResult`. -/
inductive BlockResult where
  | WokeNormally
  | NotBlocked
  | InterruptedBySignal
  | InterruptedByDeath
  | InterruptedByTimeout
deriving DecidableEq, Repr

/-- `BlockResult::was_interrupted`. -/
def BlockResult.wasInterrupted : BlockResult → Bool
  | InterruptedBySignal | InterruptedByDeath => true
  | _ => false

/-- A `ReadBlocker` from its construction until its thread returns from `block`. -/
structure ReadBlocker where
  /-- `m_should_block`. -/
  shouldBlock : Bool
  /-- `m_did_unblock`, with `m_unblocked_flags` containing `BlockFlags::Read`. -/
  didUnblock : Bool
  /-- What interrupted the thread, if anything did. -/
  interruption : Option Interruption
deriving DecidableEq, Repr

namespace ReadBlocker

/-- The constructor: `set_block_condition` fails if the file can be read already. -/
def create (canRead : Bool) : ReadBlocker where
  shouldBlock := !canRead
  didUnblock := canRead
  interruption := none

variable (self : ReadBlocker)

/-- `FileDescriptionBlocker::unblock`, called when the file evaluates its block conditions. -/
def unblock (canRead : Bool) : ReadBlocker :=
  { self with didUnblock := self.didUnblock || canRead }

/-- The thread is in the state `Blocked`. -/
def isBlocked : Bool := !self.didUnblock && self.interruption.isNone

/-- `Thread::unblock` with a signal, a timer that fires or `set_should_die`: only a thread that is
blocked is interrupted. -/
def interrupt (interruption : Interruption) : ReadBlocker :=
  if self.isBlocked then { self with interruption := some interruption } else self

/-- What `block` returns. -/
def blockResult : BlockResult :=
  if !self.shouldBlock then .NotBlocked
  else
    match self.interruption with
    | none => .WokeNormally
    | some .signal => .InterruptedBySignal
    | some .death => .InterruptedByDeath
    | some .timeout => .InterruptedByTimeout

variable {self : ReadBlocker} {canRead : Bool} {interruption : Interruption}

@[simp]
theorem didUnblock_create : (create canRead).didUnblock = canRead := rfl

@[simp]
theorem didUnblock_unblock : (self.unblock canRead).didUnblock = (self.didUnblock || canRead) := rfl

@[simp]
theorem didUnblock_interrupt : (self.interrupt interruption).didUnblock = self.didUnblock := by
  unfold interrupt
  split <;> rfl

end ReadBlocker

end Kernel
